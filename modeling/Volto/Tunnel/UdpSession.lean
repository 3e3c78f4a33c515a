import Volto.Tunnel.Udp

/-!
# How a CONNECT-UDP Session Ends

A chunk of the request stream may hold any number of capsules, and the payload of any of them
may end the session. `relayAll` is what becomes of a list of capsules, and the capsule loop of
`handle_stream_chunk` is `relayAll` over the capsules the chunk completes.

`Forwards` lists what `forward_to_target` can do, from which everything about the session's
record follows: the sends it makes, the deadline, and the signals it puts on its stream.

## Main results

* `Session.handleCapsules_eq`: the capsule loop, over a list.
* `Session.handle_aborted_iff`, `Session.handle_stop_iff`: what aborts a session, and with which
  code, and what stops it tidily.
* `Session.Running.turn`, `Session.Running.run`: the verdict of a turn and the record of a run.
* `session_verdict`: one verdict on both halves, and a deadline that only traffic moves.
-/

namespace Volto

namespace Udp

open Resumable

/-- The UDP payloads among decoded capsules. -/
def udpPayloads (outs : List (Except CapsuleError Capsule)) : List (List UInt8) :=
  outs.filterMap fun
    | .ok (.datagram contextId payload) =>
        if contextId = contextIdUdpPayload then some payload else none
    | .error _ => none

/-- What a verdict has already put on the stream. -/
def Step.signals : Step → List Signal
  | .aborted code => [.reset code]
  | .proceed | .stop => []

namespace Session

variable {s s' : Session} {ctx : Context}

/-! ### One payload -/

/-- What `forward_to_target` never touches. -/
structure Kept (s s' : Session) : Prop where
  decoder : s'.decoder = s.decoder
  routed : s'.routed = s.routed
  chunks : s'.chunks = s.chunks
  packets : s'.packets = s.packets

/-- What two steps keep, both together keep. -/
theorem Kept.trans {s s' s'' : Session} (h : Kept s s') (h' : Kept s' s'') : Kept s s'' :=
  ⟨h'.decoder.trans h.decoder, h'.routed.trans h.routed, h'.chunks.trans h.chunks,
    h'.packets.trans h.packets⟩

/-- The session has no unanswered packet left that the connection would pay for. -/
def Spent (s : Session) (ctx : Context) (env : Sending) : Prop :=
  (∃ budget, s.unansweredBudget = some (budget + 1)) ∧ ctx.unansweredPacketBudget ≠ 0 ∧
    env.remaining = 0

/-- The socket is asked to take the payload and is broken: the failure is not one of the single
packet. -/
def Fails (s : Session) (ctx : Context) (payload : List UInt8) (env : Sending) : Prop :=
  payload.length ≤ maxUdpPayload ∧ ¬s.Spent ctx env ∧ s.unansweredBudget ≠ some 0 ∧
    ∃ error, env.sent = .error error ∧ isPerPacketError error = false

/-- **Everything `forward_to_target` can do.** -/
inductive Forwards (s : Session) (ctx : Context) (path : Path) (payload : List UInt8)
    (env : Sending) : Step → Session → Prop
  | oversized (hlt : maxUdpPayload < payload.length) :
      Forwards s ctx path payload env (.aborted .h3DatagramError) (s.reset .h3DatagramError)
  | spent (hle : payload.length ≤ maxUdpPayload) (hspent : s.Spent ctx env) :
      Forwards s ctx path payload env (.aborted .h3RequestCancelled) (s.reset .h3RequestCancelled)
  | failed {s' : Session} (hfails : s.Fails ctx payload env) (hkept : Kept s s')
      (hsignals : s'.signals = s.signals) (hsent : s'.sent = s.sent)
      (hdeadline : s'.deadline = s.deadline) : Forwards s ctx path payload env .stop s'
  | dropped {s' : Session} (hle : payload.length ≤ maxUdpPayload)
      (hspent : ¬s.Spent ctx env) (hfails : ¬s.Fails ctx payload env) (hkept : Kept s s')
      (hsignals : s'.signals = s.signals) (hsent : s'.sent = s.sent)
      (hdeadline : s'.deadline = s.deadline) : Forwards s ctx path payload env .proceed s'
  | sent {s' : Session} (hle : payload.length ≤ maxUdpPayload) (hspent : ¬s.Spent ctx env)
      (hfails : ¬s.Fails ctx payload env) (hkept : Kept s s') (hsignals : s'.signals = s.signals)
      (hsent : s'.sent = s.sent ++ [(path, payload)]) :
      Forwards s ctx path payload env .proceed s'

/-- The list is complete. -/
theorem forwards (s : Session) (ctx : Context) (path : Path) (payload : List UInt8)
    (env : Sending) :
    Forwards s ctx path payload env (s.forwardToTarget ctx path payload env).step
      (s.forwardToTarget ctx path payload env).session := by
  -- the send itself, from a session that differs from `s` in its budgets at most
  have hsend : ∀ t : Session, payload.length ≤ maxUdpPayload → ¬s.Spent ctx env →
      s.unansweredBudget ≠ some 0 → Kept s t →
      t.signals = s.signals → t.sent = s.sent → t.deadline = s.deadline →
      Forwards s ctx path payload env (t.sendToTarget ctx path payload env).1
        (t.sendToTarget ctx path payload env).2 := by
    intro t hle hspent hasked hkept hsignals hsent hdeadline
    have hkept' : Kept s t.attempt := ⟨hkept.decoder, hkept.routed, hkept.chunks, hkept.packets⟩
    rw [sendToTarget]
    split
    · rename_i hok
      refine .sent hle hspent ?_ ⟨hkept.decoder, hkept.routed, hkept.chunks, hkept.packets⟩
        hsignals ?_
      · rintro ⟨-, -, -, error, herror, -⟩
        rw [hok] at herror
        cases herror
      · exact congrArg (· ++ [(path, payload)]) hsent
    · rename_i error herror
      split_ifs with hpacket
      · refine .dropped hle hspent ?_ hkept' hsignals hsent hdeadline
        rintro ⟨-, -, -, error', herror', hbroken⟩
        obtain rfl : error = error' := Except.error.inj (herror.symm.trans herror')
        exact Bool.false_ne_true (hbroken.symm.trans hpacket)
      · exact .failed ⟨hle, hspent, hasked, error, herror, Bool.eq_false_iff.mpr hpacket⟩
          hkept' hsignals hsent hdeadline
  have hself : Kept s s := ⟨rfl, rfl, rfl, rfl⟩
  rw [forwardToTarget]
  split_ifs with hlong
  · exact .oversized hlong
  · have hle := Nat.not_lt.mp hlong
    split
    · rename_i hbudget
      refine hsend s hle ?_ (by simp [hbudget]) hself rfl rfl rfl
      rintro ⟨⟨budget, heq⟩, -⟩
      rw [hbudget] at heq
      cases heq
    · rename_i hbudget
      refine .dropped hle ?_ (fun hfails => hfails.2.2.1 hbudget) hself rfl rfl rfl
      rintro ⟨⟨budget, heq⟩, -⟩
      rw [hbudget] at heq
      cases heq
    · rename_i budget hbudget
      split
      · rename_i hcharge
        rw [Context.chargeUnanswered] at hcharge
        split_ifs at hcharge with hoff hzero
        exact .spent hle ⟨⟨budget, hbudget⟩, hoff, hzero⟩
      · rename_i remaining hcharge
        refine hsend _ hle ?_ (by simp [hbudget]) ⟨rfl, rfl, rfl, rfl⟩ rfl rfl rfl
        rintro ⟨-, hoff, hzero⟩
        rw [Context.chargeUnanswered, if_neg hoff, if_pos hzero] at hcharge
        cases hcharge

/-! ### The capsules of a chunk -/

/-- What becomes of a list of capsules, the payloads from number `k` on. -/
def relayAll (ctx : Context) (envs : ℕ → Sending) (s : Session) (k : ℕ) :
    List (Except CapsuleError Capsule) → Step × Session
  | [] => (.proceed, s)
  | .error _ :: _ => (.aborted .h3DatagramError, s.reset .h3DatagramError)
  | .ok (.datagram contextId payload) :: outs =>
      if contextId ≠ contextIdUdpPayload then
        relayAll ctx envs s k outs
      else
        let handled := s.forwardToTarget ctx .capsule payload (envs k)
        match handled.step with
        | .proceed => relayAll ctx envs handled.session (k + 1) outs
        | verdict => (verdict, handled.session)

/-- A session with another decoder. -/
def withDecoder (s : Session) (decoder : CapsuleDecoder) : Session :=
  { s with decoder := decoder }

/-- Sending does not look at the decoder. -/
theorem sendToTarget_withDecoder (s : Session) (ctx : Context) (path : Path)
    (payload : List UInt8) (env : Sending) (decoder : CapsuleDecoder) :
    (s.withDecoder decoder).sendToTarget ctx path payload env =
      ((s.sendToTarget ctx path payload env).1,
        (s.sendToTarget ctx path payload env).2.withDecoder decoder) := by
  rw [sendToTarget, sendToTarget]
  split <;> rfl

/-- A payload is forwarded whatever the decoder holds. -/
theorem forwardToTarget_withDecoder (s : Session) (ctx : Context) (path : Path)
    (payload : List UInt8) (env : Sending) (decoder : CapsuleDecoder) :
    (s.withDecoder decoder).forwardToTarget ctx path payload env =
      ⟨(s.forwardToTarget ctx path payload env).step,
        (s.forwardToTarget ctx path payload env).remaining,
        (s.forwardToTarget ctx path payload env).session.withDecoder decoder⟩ := by
  have hsame : (s.withDecoder decoder).unansweredBudget = s.unansweredBudget := rfl
  by_cases hlong : maxUdpPayload < payload.length
  · simp only [forwardToTarget, if_pos hlong]
    rfl
  · rcases hbudget : s.unansweredBudget with _ | _ | budget
    · simp only [forwardToTarget, if_neg hlong, hsame, hbudget, sendToTarget_withDecoder]
    · simp only [forwardToTarget, if_neg hlong, hsame, hbudget]
    · cases hcharge : ctx.chargeUnanswered env.remaining with
      | none =>
          simp only [forwardToTarget, if_neg hlong, hsame, hbudget, hcharge]
          rfl
      | some remaining =>
          have hsend := sendToTarget_withDecoder { s with
            unansweredBudget := some budget
            chargedUnanswered := s.chargedUnanswered + 1 } ctx path payload env decoder
          simp only [forwardToTarget, if_neg hlong, hsame, hbudget, hcharge]
          exact congrArg (fun r : Step × Session => Handled.mk r.1 remaining r.2) hsend

/-- And so are the payloads of a list. -/
theorem relayAll_withDecoder (ctx : Context) (envs : ℕ → Sending) (s : Session) (k : ℕ)
    (outs : List (Except CapsuleError Capsule)) (decoder : CapsuleDecoder) :
    relayAll ctx envs (s.withDecoder decoder) k outs =
      ((relayAll ctx envs s k outs).1, (relayAll ctx envs s k outs).2.withDecoder decoder) := by
  induction outs generalizing s k with
  | nil => rfl
  | cons out outs ih =>
      rcases out with error | ⟨contextId, payload⟩
      · rfl
      · by_cases hcontext : contextId ≠ contextIdUdpPayload
        · simp only [relayAll, if_pos hcontext, ih]
        · simp only [relayAll, if_neg hcontext, forwardToTarget_withDecoder]
          cases hstep : (s.forwardToTarget ctx .capsule payload (envs k)).step with
          | proceed => exact ih _ _
          | stop => rfl
          | aborted code => rfl

/-- **The capsule loop is a pass over the capsules in the buffer**, and leaves the decoder
drained when it goes through all of them. -/
theorem handleCapsules_eq (s : Session) (ctx : Context) (envs : ℕ → Sending) (k : ℕ) :
    ∃ decoder, s.handleCapsules ctx envs k =
        ((relayAll ctx envs s k (CapsuleDecoder.loop.drain s.decoder).1).1,
          (relayAll ctx envs s k (CapsuleDecoder.loop.drain s.decoder).1).2.withDecoder decoder) ∧
      ((s.handleCapsules ctx envs k).1 = .proceed →
        decoder = (CapsuleDecoder.loop.drain s.decoder).2) := by
  induction hw : s.decoder.weight using Nat.strong_induction_on generalizing s k with
  | _ w ih =>
      rw [handleCapsules]
      split
      · rename_i decoder hnext
        rw [Loop.drain_of_none hnext]
        exact ⟨decoder, rfl, fun _ => rfl⟩
      · rename_i error decoder hnext
        rw [Loop.drain_of_some hnext]
        exact ⟨decoder, rfl, fun h => by cases h⟩
      · rename_i contextId payload decoder hnext
        have hlt : decoder.weight < w := hw ▸ Loop.weight_lt_of_next hnext
        rw [Loop.drain_of_some hnext]
        by_cases hcontext : contextId ≠ contextIdUdpPayload
        · obtain ⟨last, heq, hdrained⟩ := ih _ hlt (s.withDecoder decoder) k rfl
          rw [if_pos hcontext]
          refine ⟨last, heq.trans ?_, hdrained⟩
          rw [relayAll_withDecoder]
          simp only [relayAll, if_pos hcontext]
          rfl
        · rw [if_neg hcontext, show ({ s with decoder := decoder } : Session) =
            s.withDecoder decoder from rfl]
          simp only [relayAll, if_neg hcontext, forwardToTarget_withDecoder]
          cases hstep : (s.forwardToTarget ctx .capsule payload (envs k)).step with
          | proceed =>
              obtain ⟨last, heq, hdrained⟩ := ih _ hlt
                ((s.forwardToTarget ctx .capsule payload (envs k)).session.withDecoder decoder)
                (k + 1) rfl
              refine ⟨last, heq.trans ?_, hdrained⟩
              rw [relayAll_withDecoder]
              rfl
          | stop => exact ⟨decoder, rfl, fun h => by cases h⟩
          | aborted code => exact ⟨decoder, rfl, fun h => by cases h⟩

/-! ### The record -/

/-- The payloads that came one way and that the socket took. -/
def sentBy (s : Session) (path : Path) : List (List UInt8) :=
  (s.sent.filter (·.1 = path)).map Prod.snd

/-- Sends and packets only ever accumulate, and without either the deadline stays. -/
structure Progress (s s' : Session) : Prop where
  sent : s.sent <+: s'.sent
  packets : s.packets ≤ s'.packets
  deadline : s'.sent = s.sent → s'.packets = s.packets → s'.deadline = s.deadline

/-- A session makes no progress standing still. -/
theorem Progress.refl (s : Session) : Progress s s :=
  ⟨List.prefix_refl _, Nat.le_refl _, fun _ _ => rfl⟩

/-- What lies between two equal records is equal to both. -/
theorem Progress.between {s s' s'' : Session} (h : Progress s s') (h' : Progress s' s'')
    (hsent : s''.sent = s.sent) (hpackets : s''.packets = s.packets) :
    s'.sent = s.sent ∧ s'.packets = s.packets := by
  have hlen := h'.sent.length_le
  rw [hsent] at hlen
  have hle := h.packets
  have hle' := h'.packets
  exact ⟨(h.sent.eq_of_length_le hlen).symm, by omega⟩

/-- Progress adds up. -/
theorem Progress.trans {s s' s'' : Session} (h : Progress s s') (h' : Progress s' s'') :
    Progress s s'' where
  sent := h.sent.trans h'.sent
  packets := h.packets.trans h'.packets
  deadline hsent hpackets := by
    obtain ⟨hsent', hpackets'⟩ := h.between h' hsent hpackets
    rw [h'.deadline (hsent.trans hsent'.symm) (hpackets.trans hpackets'.symm),
      h.deadline hsent' hpackets']

/-- What a handler leaves in the record: the reset of its verdict, and sends of payloads it was
given, in order. -/
structure Records (path : Path) (payloads : List (List UInt8)) (s : Session) (step : Step)
    (s' : Session) : Prop extends Progress s s' where
  signals : s'.signals = s.signals ++ step.signals
  taken : ∃ taken : List (List UInt8), s'.sent = s.sent ++ taken.map (Prod.mk path) ∧
    taken.Sublist payloads

/-- A step that sends nothing has nothing to record. -/
theorem Records.refl (path : Path) (payloads : List (List UInt8)) (s : Session) {step : Step}
    (hstep : ∀ code, step ≠ .aborted code) : Records path payloads s step s where
  toProgress := .refl s
  signals := by
    cases step with
    | proceed => exact (List.append_nil _).symm
    | stop => exact (List.append_nil _).symm
    | aborted code => exact absurd rfl (hstep code)
  taken := ⟨[], (List.append_nil _).symm, List.nil_sublist _⟩

/-- A step that resets the stream records nothing. -/
theorem Records.reset (path : Path) (payloads : List (List UInt8)) (s : Session) (code : Code) :
    Records path payloads s (.aborted code) (s.reset code) where
  toProgress := ⟨List.prefix_refl _, Nat.le_refl _, fun _ _ => rfl⟩
  signals := rfl
  taken := ⟨[], (List.append_nil _).symm, List.nil_sublist _⟩

/-- A handler that sent nothing, put nothing on the stream and left the deadline. -/
theorem Records.still {path : Path} (payloads : List (List UInt8)) {step : Step}
    (hstep : ∀ code, step ≠ .aborted code) (hkept : Kept s s') (hsignals : s'.signals = s.signals)
    (hsent : s'.sent = s.sent) (hdeadline : s'.deadline = s.deadline) :
    Records path payloads s step s' where
  sent := hsent ▸ List.prefix_refl _
  packets := Nat.le_of_eq hkept.packets.symm
  deadline _ _ := hdeadline
  signals := hsignals.trans (Records.refl path payloads s hstep).signals
  taken := ⟨[], by rw [hsent, List.map_nil, List.append_nil], List.nil_sublist _⟩

/-- One handler after another that let the session go on. -/
theorem Records.trans {path : Path} {payloads payloads' : List (List UInt8)} {s s' s'' : Session}
    {step : Step} (h : Records path payloads s .proceed s')
    (h' : Records path payloads' s' step s'') :
    Records path (payloads ++ payloads') s step s'' where
  toProgress := h.toProgress.trans h'.toProgress
  signals := by
    rw [h'.signals, h.signals, Step.signals, List.append_nil]
  taken := by
    obtain ⟨taken, htaken, hsub⟩ := h.taken
    obtain ⟨taken', htaken', hsub'⟩ := h'.taken
    refine ⟨taken ++ taken', ?_, hsub.append hsub'⟩
    rw [htaken', htaken, List.map_append, List.append_assoc]

/-- A record of some payloads is one of more. -/
theorem Records.mono {path : Path} {payloads payloads' : List (List UInt8)} {s s' : Session}
    {step : Step} (h : Records path payloads s step s') (hsub : payloads.Sublist payloads') :
    Records path payloads' s step s' :=
  { h with
    taken := by
      obtain ⟨taken, htaken, hsub'⟩ := h.taken
      exact ⟨taken, htaken, hsub'.trans hsub⟩ }

/-- **A forwarded payload**: at most that payload is sent, and the deadline moves only if it
was. -/
theorem Forwards.records {path : Path} {payload : List UInt8} {env : Sending} {step : Step}
    (h : Forwards s ctx path payload env step s') : Records path [payload] s step s' := by
  cases h with
  | oversized hlt => exact .reset path _ s _
  | spent hle hspent => exact .reset path _ s _
  | failed hfails hkept hsignals hsent hdeadline =>
      exact .still [payload] (by simp) hkept hsignals hsent hdeadline
  | dropped hle hspent hfails hkept hsignals hsent hdeadline =>
      exact .still [payload] (by simp) hkept hsignals hsent hdeadline
  | sent hle hspent hfails hkept hsignals hsent =>
      exact {
        sent := ⟨_, hsent.symm⟩
        packets := Nat.le_of_eq hkept.packets.symm
        deadline := by
          intro heq
          rw [hsent] at heq
          exact absurd (List.append_right_eq_self.mp heq) (List.cons_ne_nil _ _)
        signals := by rw [hsignals, Step.signals, List.append_nil]
        taken := ⟨[payload], hsent, List.Sublist.refl _⟩ }

/-- Forwarding a payload keeps the rest of the session. -/
theorem Forwards.kept {path : Path} {payload : List UInt8} {env : Sending} {step : Step}
    (h : Forwards s ctx path payload env step s') : Kept s s' := by
  cases h with
  | oversized hlt => exact ⟨rfl, rfl, rfl, rfl⟩
  | spent hle hspent => exact ⟨rfl, rfl, rfl, rfl⟩
  | failed hfails hkept hsignals hsent hdeadline => exact hkept
  | dropped hle hspent hfails hkept hsignals hsent hdeadline => exact hkept
  | sent hle hspent hfails hkept hsignals hsent => exact hkept

/-- **The capsules of a chunk**: what is sent are payloads of theirs, in order. -/
theorem relayAll_records (ctx : Context) (envs : ℕ → Sending) (s : Session) (k : ℕ)
    (outs : List (Except CapsuleError Capsule)) :
    Records .capsule (udpPayloads outs) s (relayAll ctx envs s k outs).1
        (relayAll ctx envs s k outs).2 ∧
      Kept s (relayAll ctx envs s k outs).2 := by
  induction outs generalizing s k with
  | nil => exact ⟨.refl _ _ _ (by simp [relayAll]), ⟨rfl, rfl, rfl, rfl⟩⟩
  | cons out outs ih =>
      rcases out with error | ⟨contextId, payload⟩
      · exact ⟨.reset _ _ _ _, ⟨rfl, rfl, rfl, rfl⟩⟩
      · by_cases hcontext : contextId ≠ contextIdUdpPayload
        · have hpayloads : udpPayloads (.ok (.datagram contextId payload) :: outs) =
              udpPayloads outs := by
            simp [udpPayloads, hcontext]
          simp only [relayAll, if_pos hcontext, hpayloads]
          exact ih s k
        · have hpayloads : udpPayloads (.ok (.datagram contextId payload) :: outs) =
              [payload] ++ udpPayloads outs := by
            simp [udpPayloads, not_not.mp hcontext]
          have hforwards := s.forwards ctx .capsule payload (envs k)
          have hkept := hforwards.kept
          simp only [relayAll, if_neg hcontext, hpayloads]
          cases hstep : (s.forwardToTarget ctx .capsule payload (envs k)).step with
          | proceed =>
              rw [hstep] at hforwards
              obtain ⟨hrest, hkept'⟩ := ih (s.forwardToTarget ctx .capsule payload (envs k)).session
                (k + 1)
              exact ⟨hforwards.records.trans hrest, hkept.trans hkept'⟩
          | stop =>
              rw [hstep] at hforwards
              exact ⟨hforwards.records.mono (List.sublist_append_left _ _), hkept⟩
          | aborted code =>
              rw [hstep] at hforwards
              exact ⟨hforwards.records.mono (List.sublist_append_left _ _), hkept⟩

/-! ### Causes -/

/-- A capsule that ends the session, with the verdict it ends with: a malformed one or a payload
no UDP datagram can hold, a payload the connection's allowance does not cover, or one on which the
socket breaks. -/
def Breaks (ctx : Context) (verdict : Step) (s : Session) (env : Sending) :
    Except CapsuleError Capsule → Prop
  | .error _ => verdict = .aborted .h3DatagramError
  | .ok (.datagram contextId payload) =>
      contextId = contextIdUdpPayload ∧
        (verdict = .aborted .h3DatagramError ∧ maxUdpPayload < payload.length ∨
          verdict = .aborted .h3RequestCancelled ∧ payload.length ≤ maxUdpPayload ∧
            s.Spent ctx env ∨
          verdict = .stop ∧ s.Fails ctx payload env)

/-- The session gets through the capsules before one that breaks it. -/
def Meets (ctx : Context) (envs : ℕ → Sending) (verdict : Step) (s : Session) (k : ℕ)
    (outs : List (Except CapsuleError Capsule)) : Prop :=
  ∃ front out rest, outs = front ++ out :: rest ∧ (relayAll ctx envs s k front).1 = .proceed ∧
    Breaks ctx verdict (relayAll ctx envs s k front).2
      (envs (k + (udpPayloads front).length)) out

/-- What the forwarding of a payload decides, unless the session goes on. -/
theorem Forwards.step_iff {path : Path} {payload : List UInt8} {env : Sending} {step : Step}
    (h : Forwards s ctx path payload env step s') {verdict : Step} (hverdict : verdict ≠ .proceed) :
    step = verdict ↔
      Breaks ctx verdict s env (.ok (.datagram contextIdUdpPayload payload)) := by
  simp only [Breaks, true_and]
  cases h with
  | oversized hlt =>
      have hle : ¬payload.length ≤ maxUdpPayload := Nat.not_le.mpr hlt
      have hfails : ¬s.Fails ctx payload env := fun hfails => hle hfails.1
      simp [hlt, hle, hfails, eq_comm]
  | spent hle hspent =>
      have hlt : ¬maxUdpPayload < payload.length := Nat.not_lt.mpr hle
      have hfails : ¬s.Fails ctx payload env := fun hfails => hfails.2.1 hspent
      simp [hlt, hle, hspent, hfails, eq_comm]
  | failed hfails hkept hsignals hsent hdeadline =>
      have hlt : ¬maxUdpPayload < payload.length := Nat.not_lt.mpr hfails.1
      simp [hlt, hfails.2.1, hfails, eq_comm]
  | dropped hle hspent hfails hkept hsignals hsent hdeadline =>
      have hlt : ¬maxUdpPayload < payload.length := Nat.not_lt.mpr hle
      simp [hlt, hspent, hfails, hverdict.symm]
  | sent hle hspent hfails hkept hsignals hsent =>
      have hlt : ¬maxUdpPayload < payload.length := Nat.not_lt.mpr hle
      simp [hlt, hspent, hfails, hverdict.symm]

/-- Where a list is broken: at its head, or behind it. -/
theorem meets_cons (ctx : Context) (envs : ℕ → Sending) (verdict : Step) (s : Session) (k : ℕ)
    (out : Except CapsuleError Capsule) (outs : List (Except CapsuleError Capsule)) :
    Meets ctx envs verdict s k (out :: outs) ↔ Breaks ctx verdict s (envs k) out ∨
      ∃ front out' rest, outs = front ++ out' :: rest ∧
        (relayAll ctx envs s k (out :: front)).1 = .proceed ∧
        Breaks ctx verdict (relayAll ctx envs s k (out :: front)).2
          (envs (k + (udpPayloads (out :: front)).length)) out' := by
  constructor
  · rintro ⟨front, out', rest, heq, hproceed, hbreaks⟩
    cases front with
    | nil =>
        obtain ⟨rfl, -⟩ := List.cons.inj heq
        exact Or.inl hbreaks
    | cons first front =>
        obtain ⟨rfl, htail⟩ := List.cons.inj heq
        exact Or.inr ⟨front, out', rest, htail, hproceed, hbreaks⟩
  · rintro (hbreaks | ⟨front, out', rest, rfl, hproceed, hbreaks⟩)
    · exact ⟨[], out, outs, rfl, rfl, hbreaks⟩
    · exact ⟨out :: front, out', rest, rfl, hproceed, hbreaks⟩

/-- **What ends a session within a chunk** is the first of its capsules that breaks it. -/
theorem relayAll_step_iff (ctx : Context) (envs : ℕ → Sending) {verdict : Step}
    (hverdict : verdict ≠ .proceed) (s : Session) (k : ℕ)
    (outs : List (Except CapsuleError Capsule)) :
    (relayAll ctx envs s k outs).1 = verdict ↔ Meets ctx envs verdict s k outs := by
  induction outs generalizing s k with
  | nil =>
      refine iff_of_false hverdict.symm ?_
      rintro ⟨front, out, rest, heq, -⟩
      simp at heq
  | cons out outs ih =>
      rw [meets_cons]
      rcases out with error | ⟨contextId, payload⟩
      · simp [relayAll, Breaks, eq_comm]
      · by_cases hcontext : contextId ≠ contextIdUdpPayload
        · have hpayloads (front : List (Except CapsuleError Capsule)) :
              udpPayloads (.ok (.datagram contextId payload) :: front) = udpPayloads front := by
            simp [udpPayloads, hcontext]
          simp only [relayAll, if_pos hcontext, hpayloads, Breaks, hcontext, false_and, false_or]
          exact ih s k
        · obtain rfl := not_not.mp hcontext
          have hpayloads (front : List (Except CapsuleError Capsule)) :
              (udpPayloads (.ok (.datagram contextIdUdpPayload payload) :: front)).length =
                1 + (udpPayloads front).length := by
            simp [udpPayloads, Nat.add_comm]
          have hforwards := s.forwards ctx .capsule payload (envs k)
          rw [← hforwards.step_iff hverdict]
          simp only [relayAll, if_neg hcontext, hpayloads]
          cases hstep : (s.forwardToTarget ctx .capsule payload (envs k)).step with
          | proceed =>
              simp only [hverdict.symm, false_or]
              rw [ih]
              simp only [Meets, Nat.add_assoc]
          | stop => simp
          | aborted code => simp

/-- The capsules that are all there, for the session to go through. -/
def capsules (s : Session) : List (Except CapsuleError Capsule) :=
  (CapsuleDecoder.loop.drain s.decoder).1

/-- A malformed capsule, or a context-0 payload that no UDP datagram can hold. -/
def Malformed (s : Session) (ctx : Context) : Event → Prop
  | .inbound (some payload) _ => maxUdpPayload < payload.length
  | .stream (.data bytes) envs =>
      Meets ctx envs (.aborted .h3DatagramError) (s.push bytes) 0 (s.push bytes).capsules
  | _ => False

/-- The stream ended inside a capsule. -/
def Truncated (s : Session) : Event → Prop
  | .stream .fin _ => s.decoder.atCapsuleBoundary = false
  | _ => False

/-- The connection's unanswered budget is spent, or a capsule write outlived its budget. -/
def Cancelled (s : Session) (ctx : Context) : Event → Prop
  | .inbound (some payload) env => payload.length ≤ maxUdpPayload ∧ s.Spent ctx env
  | .socket (.ok _) env => env.datagramLimit = none ∧ env.write = .elapsed
  | .stream (.data bytes) envs =>
      Meets ctx envs (.aborted .h3RequestCancelled) (s.push bytes) 0 (s.push bytes).capsules
  | _ => False

/-- What ends a session tidily: a source that has no more to give or that failed, the end of the
stream between two capsules, or a socket or a capsule write that broke. -/
def Closing (s : Session) (ctx : Context) : Event → Prop
  | .inbound none _ => True
  | .inbound (some payload) env => s.Fails ctx payload env
  | .socket (.ok _) env => env.datagramLimit = none ∧ env.write = .error
  | .socket (.error error) _ => isPerPacketError error = false
  | .stream (.data bytes) envs => Meets ctx envs .stop (s.push bytes) 0 (s.push bytes).capsules
  | .stream .fin _ => s.decoder.atCapsuleBoundary = true
  | .stream .error _ => True

/-- What `forward_to_client` decides. -/
theorem forwardToClient_step (s : Session) (ctx : Context) (packet : List UInt8)
    (env : Replying) :
    (s.forwardToClient ctx packet env).step =
      if env.datagramLimit = none then
        match env.write with
        | .ok => .proceed
        | .error => .stop
        | .elapsed => .aborted .h3RequestCancelled
      else
        .proceed := by
  rw [forwardToClient]
  cases env.datagramLimit with
  | some limit =>
      rw [if_neg (by simp)]
      dsimp only
      split_ifs <;> rfl
  | none => cases env.write <;> rfl

/-- What a chunk decides is what becomes of its capsules. -/
theorem handle_data_step (s : Session) (ctx : Context) (bytes : List UInt8)
    (envs : ℕ → Sending) :
    (s.handle ctx (.stream (.data bytes) envs)).1 =
      (relayAll ctx envs (s.push bytes) 0 (s.push bytes).capsules).1 := by
  obtain ⟨decoder, heq, -⟩ := (s.push bytes).handleCapsules_eq ctx envs 0
  rw [handle, handleStreamChunk, heq]
  rfl

/-- Only two codes come out of a list of capsules. -/
theorem Breaks.code {ctx : Context} {code : Code} {env : Sending}
    {out : Except CapsuleError Capsule} (h : Breaks ctx (.aborted code) s env out) :
    code = .h3DatagramError ∨ code = .h3RequestCancelled := by
  rcases out with error | ⟨contextId, payload⟩
  · exact Or.inl (Step.aborted.inj h)
  · obtain ⟨-, ⟨hcode, -⟩ | ⟨hcode, -⟩ | ⟨hcode, -⟩⟩ := h
    · exact Or.inl (Step.aborted.inj hcode)
    · exact Or.inr (Step.aborted.inj hcode)
    · cases hcode

/-- **What aborts a session, and with which code.** -/
theorem handle_aborted_iff (s : Session) (ctx : Context) (event : Event) (code : Code) :
    (s.handle ctx event).1 = .aborted code ↔
      code = .h3DatagramError ∧ s.Malformed ctx event ∨
        code = .h3MessageError ∧ s.Truncated event ∨
        code = .h3RequestCancelled ∧ s.Cancelled ctx event := by
  have haborted : Step.aborted code ≠ .proceed := by simp
  cases event with
  | inbound payload env =>
      cases payload with
      | none => simp [handle, Malformed, Truncated, Cancelled]
      | some payload =>
          have hforwards := (s.route payload).forwards ctx .datagram payload env
          refine (hforwards.step_iff haborted).trans ?_
          simp only [Breaks, true_and, Step.aborted.injEq, reduceCtorEq, false_and, or_false,
            Malformed, Truncated, Cancelled, and_false, false_or]
          rfl
  | socket received env =>
      cases received with
      | error error =>
          simp only [handle, readVerdict, Malformed, Truncated, Cancelled, and_false, or_false,
            iff_false]
          split_ifs <;> simp
      | ok packet =>
          simp only [handle, forwardToClient_step, Malformed, Truncated, Cancelled, and_false,
            false_or]
          split_ifs with hlimit
          · cases env.write <;> simp [hlimit, eq_comm]
          · simp [hlimit]
  | stream chunk envs =>
      cases chunk with
      | data bytes =>
          rw [handle_data_step, relayAll_step_iff ctx envs haborted]
          simp only [Malformed, Truncated, Cancelled, and_false, false_or]
          constructor
          · rintro ⟨front, out, rest, hout, hproceed, hbreaks⟩
            rcases hbreaks.code with rfl | rfl
            · exact Or.inl ⟨rfl, front, out, rest, hout, hproceed, hbreaks⟩
            · exact Or.inr ⟨rfl, front, out, rest, hout, hproceed, hbreaks⟩
          · rintro (⟨rfl, hmeets⟩ | ⟨rfl, hmeets⟩)
            · exact hmeets
            · exact hmeets
      | fin =>
          simp only [handle, handleStreamChunk, Malformed, Truncated, Cancelled, and_false,
            false_or, or_false]
          split_ifs with hboundary
          · simp [hboundary]
          · simp [hboundary, eq_comm]
      | error => simp [handle, handleStreamChunk, Malformed, Truncated, Cancelled]

/-- **What stops a session tidily.** -/
theorem handle_stop_iff (s : Session) (ctx : Context) (event : Event) :
    (s.handle ctx event).1 = .stop ↔ s.Closing ctx event := by
  have hstop : Step.stop ≠ .proceed := by simp
  cases event with
  | inbound payload env =>
      cases payload with
      | none => simp [handle, Closing]
      | some payload =>
          have hforwards := (s.route payload).forwards ctx .datagram payload env
          refine (hforwards.step_iff hstop).trans ?_
          simp only [Breaks, true_and, reduceCtorEq, false_and, false_or, Closing]
          rfl
  | socket received env =>
      cases received with
      | error error =>
          simp only [handle, readVerdict, Closing]
          split_ifs with hpacket <;> simp [hpacket]
      | ok packet =>
          simp only [handle, forwardToClient_step, Closing]
          split_ifs with hlimit
          · cases env.write <;> simp [hlimit]
          · simp [hlimit]
  | stream chunk envs =>
      cases chunk with
      | data bytes => rw [handle_data_step, relayAll_step_iff ctx envs hstop, Closing]
      | fin =>
          simp only [handle, handleStreamChunk, Closing]
          split_ifs with hboundary <;> simp [hboundary]
      | error => simp [handle, handleStreamChunk, Closing]

/-! ### Runs -/

/-- What is sent to the target came to the session, in that order on each path. -/
structure Relayed (s : Session) : Prop where
  datagram : (s.sentBy .datagram).Sublist s.routed
  capsule : (s.sentBy .capsule).Sublist (udpPayloads (CapsuleDecoder.new.decode s.chunks).1)

/-- A session that is running: nothing is on its stream yet, and its decoder is drained. -/
structure Running (s : Session) : Prop extends Relayed s where
  signals : s.signals = []
  decoder : s.decoder = (CapsuleDecoder.new.decode s.chunks).2

/-- The sends of a handler belong to its path. -/
theorem Records.sentBy {path : Path} {payloads : List (List UInt8)} {step : Step}
    (h : Records path payloads s step s') :
    (∃ taken, s'.sentBy path = s.sentBy path ++ taken ∧ taken.Sublist payloads) ∧
      ∀ other ≠ path, s'.sentBy other = s.sentBy other := by
  obtain ⟨taken, htaken, hsub⟩ := h.taken
  constructor
  · refine ⟨taken, ?_, hsub⟩
    simp [Session.sentBy, htaken, List.filter_map, Function.comp_def]
  · intro other hne
    simp [Session.sentBy, htaken, Ne.symm hne]

/-- What went by a path is read off what was sent. -/
theorem sentBy_congr (h : s'.sent = s.sent) (path : Path) : s'.sentBy path = s.sentBy path := by
  rw [sentBy, sentBy, h]

/-- What an event leaves: a sound record, the reset of an abort, and a drained decoder if the
session goes on. -/
structure Handles (s : Session) (step : Step) (s' : Session) : Prop extends Relayed s' where
  signals : s'.signals = step.signals
  decoder : step = .proceed → s'.decoder = (CapsuleDecoder.new.decode s'.chunks).2
  progress : Progress s s'

/-- An event that ends the session, or not, without a trace. -/
theorem Running.unmoved (h : s.Running) {step : Step} (hstep : ∀ code, step ≠ .aborted code) :
    Handles s step s where
  toRelayed := h.toRelayed
  signals := by
    have hrefl := (Records.refl .datagram [] s hstep).signals
    rw [h.signals, List.nil_append] at hrefl
    rw [h.signals]
    exact hrefl
  decoder _ := h.decoder
  progress := .refl s

/-- What `forward_to_client` leaves alone, and what it records. -/
theorem forwardToClient_record (s : Session) (ctx : Context) (packet : List UInt8)
    (env : Replying) :
    let handled := s.forwardToClient ctx packet env
    handled.session.sent = s.sent ∧ handled.session.routed = s.routed ∧
      handled.session.chunks = s.chunks ∧ handled.session.decoder = s.decoder ∧
      handled.session.packets = s.packets + 1 ∧
      handled.session.signals = s.signals ++ handled.step.signals := by
  rw [forwardToClient]
  cases env.datagramLimit with
  | some limit =>
      dsimp only
      split_ifs <;> exact ⟨rfl, rfl, rfl, rfl, rfl, (List.append_nil _).symm⟩
  | none =>
      cases env.write with
      | ok => exact ⟨rfl, rfl, rfl, rfl, rfl, (List.append_nil _).symm⟩
      | error => exact ⟨rfl, rfl, rfl, rfl, rfl, (List.append_nil _).symm⟩
      | elapsed => exact ⟨rfl, rfl, rfl, rfl, rfl, rfl⟩

/-- A running session handles a QUIC datagram. -/
theorem Running.inbound (h : s.Running) (ctx : Context) (payload : List UInt8) (env : Sending) :
    Handles s ((s.route payload).forwardToTarget ctx .datagram payload env).step
      ((s.route payload).forwardToTarget ctx .datagram payload env).session := by
  have hforwards := (s.route payload).forwards ctx .datagram payload env
  have hkept := hforwards.kept
  have hrecords := hforwards.records
  obtain ⟨⟨taken, htaken, hsub⟩, hother⟩ := hrecords.sentBy
  exact {
    datagram := by
      rw [htaken, hkept.routed]
      exact h.datagram.append hsub
    capsule := by
      rw [hother .capsule (by simp), hkept.chunks]
      exact h.capsule
    signals := by
      have hnil : (s.route payload).signals = [] := h.signals
      rw [hrecords.signals, hnil, List.nil_append]
    decoder := by
      intro _
      rw [hkept.decoder, hkept.chunks]
      exact h.decoder
    progress := ⟨hrecords.sent, hrecords.packets, hrecords.deadline⟩ }

/-- A running session handles a packet of the target. -/
theorem Running.socket (h : s.Running) (ctx : Context) (packet : List UInt8) (env : Replying) :
    Handles s (s.forwardToClient ctx packet env).step
      (s.forwardToClient ctx packet env).session := by
  obtain ⟨hsent, hrouted, hchunks, hdecoder, hpackets, hsignals⟩ :=
    s.forwardToClient_record ctx packet env
  exact {
    datagram := by
      rw [sentBy_congr hsent, hrouted]
      exact h.datagram
    capsule := by
      rw [sentBy_congr hsent, hchunks]
      exact h.capsule
    signals := by rw [hsignals, h.signals, List.nil_append]
    decoder := by
      intro _
      rw [hdecoder, hchunks]
      exact h.decoder
    progress := by
      refine ⟨hsent ▸ List.prefix_refl _, ?_, ?_⟩
      · exact (Nat.le_succ _).trans (Nat.le_of_eq hpackets.symm)
      · intro _ hsame
        exact absurd (hpackets.symm.trans hsame) (Nat.succ_ne_self _) }

/-- A running session handles the bytes of the request body. -/
theorem Running.stream (h : s.Running) (ctx : Context) (bytes : List UInt8)
    (envs : ℕ → Sending) :
    Handles s ((s.push bytes).handleCapsules ctx envs 0).1
      ((s.push bytes).handleCapsules ctx envs 0).2 := by
  obtain ⟨decoder, heq, hdrained⟩ := (s.push bytes).handleCapsules_eq ctx envs 0
  obtain ⟨hrecords, hkept⟩ := relayAll_records ctx envs (s.push bytes) 0
    (CapsuleDecoder.loop.drain (s.push bytes).decoder).1
  obtain ⟨⟨taken, htaken, hsub⟩, hother⟩ := hrecords.sentBy
  have hdecode := CapsuleDecoder.decode_concat s.chunks bytes
  rw [← h.decoder] at hdecode
  rw [heq] at hdrained ⊢
  generalize relayAll ctx envs (s.push bytes) 0 _ = r at *
  have hrouted : r.2.routed = s.routed := hkept.routed
  have hchunks : r.2.chunks = s.chunks ++ [bytes] := hkept.chunks
  exact {
    datagram := by
      show (r.2.sentBy .datagram).Sublist r.2.routed
      rw [hother .datagram (by simp), hrouted]
      exact h.datagram
    capsule := by
      show (r.2.sentBy .capsule).Sublist (udpPayloads (CapsuleDecoder.new.decode r.2.chunks).1)
      rw [htaken, hchunks, hdecode, udpPayloads, List.filterMap_append]
      exact h.capsule.append hsub
    signals := by
      have hnil : (s.push bytes).signals = [] := h.signals
      have hsignals := hrecords.signals
      rw [hnil, List.nil_append] at hsignals
      exact hsignals
    decoder := by
      intro hproceed
      show decoder = (CapsuleDecoder.new.decode r.2.chunks).2
      rw [hchunks, hdecode]
      exact hdrained hproceed
    progress := ⟨hrecords.sent, hrecords.packets, hrecords.deadline⟩ }

/-- **What handling an event leaves.** -/
theorem Running.handle (h : s.Running) (ctx : Context) (event : Event) :
    Handles s (s.handle ctx event).1 (s.handle ctx event).2 := by
  cases event with
  | inbound payload env =>
      cases payload with
      | none => exact h.unmoved (by simp [Session.handle])
      | some payload => exact h.inbound ctx payload env
  | socket received env =>
      cases received with
      | ok packet => exact h.socket ctx packet env
      | error error =>
          refine h.unmoved fun code => ?_
          rw [Session.handle, readVerdict]
          split_ifs <;> simp
  | stream chunk envs =>
      cases chunk with
      | data bytes => exact h.stream ctx bytes envs
      | error => exact h.unmoved (by simp [Session.handle, handleStreamChunk])
      | fin =>
          rw [Session.handle, handleStreamChunk]
          split_ifs
          · exact h.unmoved (by simp)
          · exact {
              datagram := h.datagram
              capsule := h.capsule
              signals := by rw [reset, h.signals]; rfl
              decoder := fun hproceed => by cases hproceed
              progress := ⟨List.prefix_refl _, Nat.le_refl _, fun _ _ => rfl⟩ }

/-- The signals of a session that aborts with a code. -/
def aborts (code : Code) : List Signal :=
  [.reset code, .stopReceiving code]

/-- The signals of a session that closes tidily. -/
def closes : List Signal :=
  [.stopReceiving .h3NoError, .finish]

/-- The turn brings an event, before the deadline, with a certain property. -/
def Brings (s : Session) (t : Turn) (P : Event → Prop) : Prop :=
  ∃ event, s.beforeDeadline t = some event ∧ P event

/-- Nothing comes before the deadline of the session. -/
def Expires (s : Session) (t : Turn) : Prop :=
  s.beforeDeadline t = none

/-- **One verdict on both halves**: whether a session goes on after a turn, and what is on its
stream then, by what the turn brought. -/
structure Verdict (s : Session) (ctx : Context) (t : Turn) (go : Bool) (signals : List Signal) :
    Prop where
  datagramError :
    go = false ∧ signals = aborts .h3DatagramError ↔ s.Brings t (s.Malformed ctx)
  messageError : go = false ∧ signals = aborts .h3MessageError ↔ s.Brings t s.Truncated
  requestCancelled :
    go = false ∧ signals = aborts .h3RequestCancelled ↔ s.Brings t (s.Cancelled ctx)
  clean : go = false ∧ signals = closes ↔ s.Expires t ∨ s.Brings t (s.Closing ctx)
  /-- There is no other end. -/
  otherwise : go = false → (signals = closes ↔ ¬s.Brings t (s.Malformed ctx) ∧
    ¬s.Brings t s.Truncated ∧ ¬s.Brings t (s.Cancelled ctx))
  /-- Nothing is on the stream of a session that goes on. -/
  silent : go = true → signals = []
  /-- Never both a reset and a finish. -/
  never : ∀ code, ¬(.reset code ∈ signals ∧ .finish ∈ signals)

/-- An abort is no clean close. -/
theorem aborts_ne_closes (code : Code) : aborts code ≠ closes := by
  simp [aborts, closes]

/-- Each cause is the decision of the event that has it. -/
theorem cause_iff (s : Session) (ctx : Context) (event : Event) :
    (s.Malformed ctx event ↔ (s.handle ctx event).1 = .aborted .h3DatagramError) ∧
      (s.Truncated event ↔ (s.handle ctx event).1 = .aborted .h3MessageError) ∧
      (s.Cancelled ctx event ↔ (s.handle ctx event).1 = .aborted .h3RequestCancelled) ∧
      (s.Closing ctx event ↔ (s.handle ctx event).1 = .stop) := by
  have hcode : Code.h3DatagramError ≠ .h3MessageError ∧
      Code.h3DatagramError ≠ .h3RequestCancelled ∧
      Code.h3MessageError ≠ .h3RequestCancelled := by decide
  obtain ⟨hdm, hdr, hmr⟩ := hcode
  simp only [handle_aborted_iff, handle_stop_iff, true_and]
  simp [hdm, hdm.symm, hdr, hdr.symm, hmr, hmr.symm]

/-- The deadline is a tidy end. -/
theorem verdict_expire {t : Turn} (hexpires : s.Expires t) : Verdict s ctx t false closes := by
  have hnone (P : Event → Prop) : ¬s.Brings t P := by
    rintro ⟨event, hevent, -⟩
    rw [hexpires] at hevent
    cases hevent
  exact {
    datagramError := iff_of_false (fun h => (aborts_ne_closes _).symm h.2) (hnone _)
    messageError := iff_of_false (fun h => (aborts_ne_closes _).symm h.2) (hnone _)
    requestCancelled := iff_of_false (fun h => (aborts_ne_closes _).symm h.2) (hnone _)
    clean := iff_of_true ⟨rfl, rfl⟩ (Or.inl hexpires)
    otherwise := fun _ => iff_of_true rfl ⟨hnone _, hnone _, hnone _⟩
    silent := by simp
    never := by simp [closes] }

/-- What a step makes of a session with an empty stream: whether it goes on, and its signals. -/
def outcome : Step → Bool × List Signal
  | .proceed => (true, [])
  | .stop => (false, closes)
  | .aborted code => (false, aborts code)

/-- Every step has its own outcome. -/
theorem outcome_eq_iff (step step' : Step) : outcome step = outcome step' ↔ step = step' := by
  cases step <;> cases step' <;> simp [outcome, aborts, closes]

/-- The verdict on an event is what handling it decided. -/
theorem verdict_event {t : Turn} {event : Event} (hevent : s.beforeDeadline t = some event) :
    Verdict s ctx t (outcome (s.handle ctx event).1).1
      (outcome (s.handle ctx event).1).2 := by
  obtain ⟨hmalformed, htruncated, hcancelled, hclosing⟩ := s.cause_iff ctx event
  have hbrings (P : Event → Prop) : s.Brings t P ↔ P event := by
    simp [Brings, hevent]
  have hexpires : ¬s.Expires t := by simp [Expires, hevent]
  have hcodes := s.handle_aborted_iff ctx event
  generalize (s.handle ctx event).1 = step at *
  -- the outcome is the one of a certain step exactly when the step is that one
  have hends (step' : Step) (hover : (outcome step').1 = false) :
      (outcome step).1 = false ∧ (outcome step).2 = (outcome step').2 ↔ step = step' := by
    rw [← outcome_eq_iff, Prod.ext_iff, hover]
  exact {
    datagramError := by rw [hbrings, hmalformed]; exact hends (.aborted .h3DatagramError) rfl
    messageError := by rw [hbrings, htruncated]; exact hends (.aborted .h3MessageError) rfl
    requestCancelled := by
      rw [hbrings, hcancelled]
      exact hends (.aborted .h3RequestCancelled) rfl
    clean := by
      rw [hbrings, hclosing, or_iff_right hexpires]
      exact hends .stop rfl
    otherwise := by
      intro hover
      simp only [hbrings]
      cases step with
      | proceed => cases hover
      | stop => simp [outcome, hmalformed, htruncated, hcancelled]
      | aborted code =>
          refine iff_of_false (aborts_ne_closes code) ?_
          rintro ⟨hm, ht, hc⟩
          rcases (hcodes code).mp rfl with ⟨-, h⟩ | ⟨-, h⟩ | ⟨-, h⟩
          · exact hm h
          · exact ht h
          · exact hc h
    silent := by
      intro hgo
      cases step with
      | proceed => rfl
      | stop | aborted code => cases hgo
    never := by
      intro code
      cases step <;> simp [outcome, aborts, closes] }

/-- A session that has signalled nothing closes cleanly. -/
theorem close_signals (h : s.signals = []) : s.close.signals = closes := by
  rw [close, finish, stopReceiving, h]
  rfl

/-- **One turn**: the session goes on as it should, or ends, with the verdict of the turn. -/
theorem Running.turn (h : s.Running) (ctx : Context) (t : Turn) :
    Progress s (s.turn ctx t).2 ∧ Relayed (s.turn ctx t).2 ∧
      ((s.turn ctx t).1 = true → Running (s.turn ctx t).2) ∧
      Verdict s ctx t (s.turn ctx t).1 (s.turn ctx t).2.signals := by
  cases hevent : s.beforeDeadline t with
  | none =>
      have hturn : s.turn ctx t = (false, s.close) := by rw [Session.turn, hevent]
      rw [hturn]
      refine ⟨⟨List.prefix_refl _, Nat.le_refl _, fun _ _ => rfl⟩, ⟨h.datagram, h.capsule⟩,
        by simp, ?_⟩
      rw [close_signals h.signals]
      exact verdict_expire hevent
  | some event =>
      have hhandles := h.handle ctx event
      have hverdict := @verdict_event s ctx t event hevent
      rcases hhandle : s.handle ctx event with ⟨step, s'⟩
      rw [hhandle] at hhandles hverdict
      obtain ⟨hsent, hpackets, hdeadline⟩ := hhandles.progress
      have hsignals := hhandles.signals
      cases step with
      | proceed =>
          have hturn : s.turn ctx t = (true, s') := by
            simp only [Session.turn, hevent, hhandle]
          rw [hturn]
          refine ⟨hhandles.progress, hhandles.toRelayed, fun _ => { hhandles with
            signals := hsignals, decoder := hhandles.decoder rfl }, ?_⟩
          rw [hsignals]
          exact hverdict
      | stop =>
          have hturn : s.turn ctx t = (false, s'.close) := by
            simp only [Session.turn, hevent, hhandle]
          rw [hturn]
          refine ⟨⟨hsent, hpackets, hdeadline⟩, ⟨hhandles.datagram, hhandles.capsule⟩,
            by simp, ?_⟩
          rw [close_signals hsignals]
          exact hverdict
      | aborted code =>
          have hturn : s.turn ctx t = (false, s'.stopReceiving code) := by
            simp only [Session.turn, hevent, hhandle]
          rw [hturn]
          refine ⟨⟨hsent, hpackets, hdeadline⟩, ⟨hhandles.datagram, hhandles.capsule⟩,
            by simp, ?_⟩
          have haborts : (s'.stopReceiving code).signals = aborts code := by
            rw [stopReceiving, hsignals]
            rfl
          rw [haborts]
          exact hverdict

/-- A run goes on where it stopped, unless it is over. -/
theorem run_append (s : Session) (ctx : Context) (turns more : List Turn) :
    s.run ctx (turns ++ more) =
      if (s.run ctx turns).1 = true then (s.run ctx turns).2.run ctx more
      else s.run ctx turns := by
  induction turns generalizing s with
  | nil => rfl
  | cons t turns ih =>
      rw [List.cons_append, Session.run, Session.run]
      rcases s.turn ctx t with ⟨go, s'⟩
      cases go with
      | false => rfl
      | true => exact ih s'

/-- One turn more of a session that is running. -/
theorem run_concat {front : List Turn} (hgo : (s.run ctx front).1 = true) (t : Turn) :
    s.run ctx (front ++ [t]) = (s.run ctx front).2.turn ctx t := by
  rw [run_append, if_pos hgo, Session.run]
  rcases (s.run ctx front).2.turn ctx t with ⟨go, s'⟩
  cases go <;> rfl

/-- A run that is over ended at one of its turns. -/
theorem exists_last_turn {turns : List Turn} (hover : (s.run ctx turns).1 = false) :
    ∃ front t rest, turns = front ++ t :: rest ∧ (s.run ctx front).1 = true ∧
      s.run ctx turns = s.run ctx (front ++ [t]) := by
  induction turns using List.reverseRecOn with
  | nil => cases hover
  | append_singleton turns t ih =>
      cases hgo : (s.run ctx turns).1 with
      | true => exact ⟨turns, t, [], rfl, hgo, rfl⟩
      | false =>
          obtain ⟨front, last, rest, heq, hfront, hlast⟩ := ih hgo
          refine ⟨front, last, rest ++ [t], by rw [heq]; simp, hfront, ?_⟩
          rw [run_append, if_neg (by simp [hgo]), hlast]

/-- **A run** keeps what a turn keeps. -/
theorem Running.run (h : s.Running) (ctx : Context) (turns : List Turn) :
    Progress s (s.run ctx turns).2 ∧ Relayed (s.run ctx turns).2 ∧
      ((s.run ctx turns).1 = true → Running (s.run ctx turns).2) := by
  induction turns generalizing s with
  | nil => exact ⟨.refl s, h.toRelayed, fun _ => h⟩
  | cons t turns ih =>
      obtain ⟨hprogress, hrelayed, hrunning, -⟩ := h.turn ctx t
      rw [Session.run]
      rcases hturn : s.turn ctx t with ⟨go, s'⟩
      rw [hturn] at hprogress hrelayed hrunning
      cases go with
      | false => exact ⟨hprogress, hrelayed, by simp⟩
      | true =>
          obtain ⟨hprogress', hrelayed', hrunning'⟩ := ih (hrunning rfl)
          exact ⟨hprogress.trans hprogress', hrelayed', hrunning'⟩

/-- A fresh session runs. -/
theorem running_new (ctx : Context) (quarterStreamId now : ℕ) :
    Running (new ctx quarterStreamId now) where
  datagram := List.nil_sublist _
  capsule := List.nil_sublist _
  signals := rfl
  decoder := rfl

/-- A session at its deadline is over. -/
theorem turn_of_deadline_le {t : Turn} (h : s.deadline ≤ t.now) :
    s.turn ctx t = (false, s.close) := by
  rw [turn, beforeDeadline, if_pos h]

/-- **Without traffic a session ends at its deadline**: if nothing is sent and no packet comes,
the deadline stays where it is, and no turn at or after it finds the session running. -/
theorem Running.idle (h : s.Running) (turns : List Turn)
    (hsent : (s.run ctx turns).2.sent = s.sent)
    (hpackets : (s.run ctx turns).2.packets = s.packets) :
    (s.run ctx turns).2.deadline = s.deadline ∧
      ((∃ t ∈ turns, s.deadline ≤ t.now) → (s.run ctx turns).1 = false) := by
  refine ⟨(h.run ctx turns).1.deadline hsent hpackets, ?_⟩
  rintro ⟨t, hmem, hle⟩
  induction turns generalizing s with
  | nil => cases hmem
  | cons first turns ih =>
      obtain ⟨hprogress, -, hrunning, -⟩ := h.turn ctx first
      rcases hturn : s.turn ctx first with ⟨go, s'⟩
      rw [hturn] at hprogress hrunning
      cases go with
      | false => rw [Session.run, hturn]
      | true =>
          have hrun : s.run ctx (first :: turns) = s'.run ctx turns := by rw [Session.run, hturn]
          have hs' := hrunning rfl
          have hprogress' := (hs'.run ctx turns).1
          rw [hrun] at hsent hpackets ⊢
          obtain ⟨hsent', hpackets'⟩ := hprogress.between hprogress' hsent hpackets
          have hdeadline := hprogress.deadline hsent' hpackets'
          rcases List.mem_cons.mp hmem with rfl | hmem
          · rw [turn_of_deadline_le hle] at hturn
            cases hturn
          · exact ih hs' (hsent.trans hsent'.symm) (hpackets.trans hpackets'.symm) hmem
              (hdeadline ▸ hle)

end Session

/-- **A CONNECT-UDP session ends with one verdict on both halves and is kept alive only by
traffic.** In every run of a session, whatever its sources bring:

* what the target is sent came to the session, in that order on each of the two paths;
* while it runs, every turn has its verdict: a malformed capsule or an oversized payload, a stream
  that ends inside a capsule, and a spent allowance or a capsule write given up each end the
  session with a reset and a stop of their own code, and end it so alone; the deadline, and what
  closes a source or breaks the socket, end it with a stop with `H3_NO_ERROR` and a finish; after
  anything else it goes on with nothing on its stream;
* it ends at such a turn, and nothing that comes later changes anything;
* unless a payload is sent or a packet comes, its deadline stays where it is, and no turn at or
  after the deadline leaves it running. -/
theorem session_verdict (ctx : Context) (quarterStreamId now : ℕ) (turns : List Turn) :
    let start := Session.new ctx quarterStreamId now
    let s := (start.run ctx turns).2
    (s.sentBy .datagram).Sublist s.routed ∧
    (s.sentBy .capsule).Sublist (udpPayloads (CapsuleDecoder.new.decode s.chunks).1) ∧
    ((start.run ctx turns).1 = true → s.signals = [] ∧
      (∀ t : Turn, s.Verdict ctx t (start.run ctx (turns ++ [t])).1
        (start.run ctx (turns ++ [t])).2.signals) ∧
      ∀ more : List Turn, (s.run ctx more).2.sent = s.sent →
        (s.run ctx more).2.packets = s.packets →
          (s.run ctx more).2.deadline = s.deadline ∧
          ((∃ t ∈ more, s.deadline ≤ t.now) → (s.run ctx more).1 = false)) ∧
    ((start.run ctx turns).1 = false →
      (∃ front t rest, turns = front ++ t :: rest ∧ (start.run ctx front).1 = true ∧
        (start.run ctx front).2.turn ctx t = (false, s) ∧
        (start.run ctx front).2.Verdict ctx t false s.signals) ∧
      ∀ more : List Turn, start.run ctx (turns ++ more) = (false, s)) := by
  intro start s
  have hstart := Session.running_new ctx quarterStreamId now
  obtain ⟨-, hrelayed, hrunning⟩ := hstart.run ctx turns
  refine ⟨hrelayed.datagram, hrelayed.capsule, fun hgo => ?_, fun hover => ⟨?_, fun more => ?_⟩⟩
  · have hs := hrunning hgo
    refine ⟨hs.signals, fun t => ?_, fun more hsent hpackets => hs.idle more hsent hpackets⟩
    rw [Session.run_concat hgo]
    exact (hs.turn ctx t).2.2.2
  · obtain ⟨front, t, rest, heq, hgo, hlast⟩ := Session.exists_last_turn hover
    rw [Session.run_concat hgo] at hlast
    have hend : (start.run ctx front).2.turn ctx t = (false, s) :=
      hlast.symm.trans (Prod.ext hover rfl)
    have hverdict := (((hstart.run ctx front).2.2 hgo).turn ctx t).2.2.2
    rw [hend] at hverdict
    exact ⟨front, t, rest, heq, hgo, hend, hverdict⟩
  · rw [Session.run_append, if_neg (by simp [hover])]
    exact Prod.ext hover rfl

end Udp

end Volto
