import Volto.Lib.Ledger
import Volto.Lib.Slots
import Volto.Tunnel.Udp

/-!
# The Unanswered-Packet Budget

The UDP sessions of one connection and the counter they charge. Every handler makes at most one
atomic operation on the counter and touches nothing else outside its session, so a call of a
handler is one step here, at that operation; the sessions interleave in any order. A session
that is over stays in the list with what it charged.

## Main results

* `Conserved.step`: what every step preserves.
* `unanswered_budget_conserved`: the budget over the life of a connection.
-/

namespace Volto

namespace Udp

open Saturating

/-! ### One session -/

/-- What the send does to the budgets: nothing, but it is an attempt until the target answers. -/
theorem Session.sendToTarget_attempt (s : Session) (ctx : Context) (path : Path)
    (payload : List UInt8) (env : Sending) :
    let sent := (s.sendToTarget ctx path payload env).2
    sent.packets = s.packets ∧ sent.unansweredBudget = s.unansweredBudget ∧
      sent.chargedUnanswered = s.chargedUnanswered ∧
      sent.attempted = s.attempted + if s.packets = 0 then 1 else 0 := by
  rw [sendToTarget]
  cases env.sent <;> exact ⟨rfl, rfl, rfl, rfl⟩

/-- Only the target's packets are counted as such. -/
theorem Session.forwardToTarget_packets (s : Session) (ctx : Context) (path : Path)
    (payload : List UInt8) (env : Sending) :
    (s.forwardToTarget ctx path payload env).session.packets = s.packets := by
  rw [forwardToTarget]
  split_ifs
  · rfl
  · split
    · exact (s.sendToTarget_attempt ctx path payload env).1
    · rfl
    · split
      · rfl
      · exact (Session.sendToTarget_attempt _ ctx path payload env).1

/-- What `forward_to_target` can do to the budgets of a session that is uncapped exactly when its
target has answered: nothing, or one charge on both and one attempt. -/
theorem Session.forwardToTarget_charge (s : Session) {ctx : Context}
    (hctx : ctx.unansweredPacketBudget ≠ 0) (hcapped : s.unansweredBudget = none ↔ s.packets ≠ 0)
    (path : Path) (payload : List UInt8) (env : Sending) :
    let handled := s.forwardToTarget ctx path payload env
    (handled.remaining = env.remaining ∧
        handled.session.unansweredBudget = s.unansweredBudget ∧
        handled.session.chargedUnanswered = s.chargedUnanswered ∧
        handled.session.attempted = s.attempted) ∨
      ∃ budget, s.unansweredBudget = some (budget + 1) ∧ 0 < env.remaining ∧
        handled.remaining = env.remaining - 1 ∧
        handled.session.unansweredBudget = some budget ∧
        handled.session.chargedUnanswered = s.chargedUnanswered + 1 ∧
        handled.session.attempted = s.attempted + 1 := by
  rw [forwardToTarget]
  split_ifs with hlong
  · exact Or.inl ⟨rfl, rfl, rfl, rfl⟩
  · cases hbudget : s.unansweredBudget with
    | none =>
        obtain ⟨-, hunanswered, hcharged, hattempted⟩ :=
          s.sendToTarget_attempt ctx path payload env
        rw [if_neg (hcapped.mp hbudget), Nat.add_zero] at hattempted
        exact Or.inl ⟨rfl, hunanswered.trans hbudget, hcharged, hattempted⟩
    | some budget =>
        cases budget with
        | zero => exact Or.inl ⟨rfl, hbudget, rfl, rfl⟩
        | succ budget =>
            by_cases hremaining : env.remaining = 0
            · have hcharge : ctx.chargeUnanswered env.remaining = none := by
                rw [Context.chargeUnanswered, if_neg hctx, if_pos hremaining]
              rw [hcharge]
              exact Or.inl ⟨rfl, hbudget, rfl, rfl⟩
            · have hcharge : ctx.chargeUnanswered env.remaining = some (env.remaining - 1) := by
                rw [Context.chargeUnanswered, if_neg hctx, if_neg hremaining]
              have hsilent : s.packets = 0 := by
                by_contra hanswered
                rw [hcapped.mpr hanswered] at hbudget
                cases hbudget
              rw [hcharge]
              obtain ⟨-, hunanswered, hcharged, hattempted⟩ :=
                Session.sendToTarget_attempt { s with
                  unansweredBudget := some budget
                  chargedUnanswered := s.chargedUnanswered + 1 } ctx path payload env
              rw [if_pos hsilent] at hattempted
              exact Or.inr ⟨budget, rfl, Nat.pos_of_ne_zero hremaining, rfl, hunanswered,
                hcharged, hattempted⟩

/-- What `forward_to_client` does to the budgets. -/
theorem Session.forwardToClient_refund (s : Session) (ctx : Context) (packet : List UInt8)
    (env : Replying) :
    let handled := s.forwardToClient ctx packet env
    handled.remaining = ctx.refundUnanswered env.remaining s.chargedUnanswered ∧
      handled.session.packets = s.packets + 1 ∧ handled.session.unansweredBudget = none ∧
      handled.session.chargedUnanswered = 0 ∧ handled.session.attempted = s.attempted := by
  rw [forwardToClient]
  split
  · split_ifs <;> exact ⟨rfl, rfl, rfl, rfl, rfl⟩
  · split <;> exact ⟨rfl, rfl, rfl, rfl, rfl⟩

/-! ### The connection -/

/-- A session of the connection, running or over. -/
structure Slot where
  session : Session
  live : Bool
deriving DecidableEq, Repr

/-- A connection's counter and all its UDP sessions, in the order they were opened. -/
structure Connection where
  /-- What is left of the connection's allowance. -/
  unansweredConnectionBudget : ℕ
  sessions : List Slot
deriving DecidableEq, Repr

/-- What can happen to the sessions of a connection. -/
inductive Action
  | opened (quarterStreamId now : ℕ)
  | toTarget (i : ℕ) (path : Path) (payload : List UInt8) (sent : Except IoError Unit) (now : ℕ)
  | toClient (i : ℕ) (packet : List UInt8) (now : ℕ) (datagramLimit : Option ℕ) (write : Write)
  | ended (i : ℕ)

namespace Connection

/-- A connection that has just been accepted. -/
def new (ctx : Context) : Connection :=
  ⟨ctx.unansweredConnectionTotal, []⟩

/-- The session `i`, if it runs. -/
def live? (c : Connection) (i : ℕ) : Option Session :=
  match c.sessions[i]? with
  | some ⟨session, true⟩ => some session
  | _ => none

/-- The connection after a handler of session `i`; any verdict but to proceed ends it. -/
def handled (c : Connection) (i : ℕ) (h : Handled) : Connection :=
  ⟨h.remaining, c.sessions.set i ⟨h.session, h.step = .proceed⟩⟩

/-- One step. A session that does not run does nothing. -/
def step (c : Connection) (ctx : Context) : Action → Connection
  | .opened quarterStreamId now =>
      { c with sessions := c.sessions ++ [⟨.new ctx quarterStreamId now, true⟩] }
  | .toTarget i path payload sent now =>
      match c.live? i with
      | some s =>
          c.handled i (s.forwardToTarget ctx path payload
            ⟨c.unansweredConnectionBudget, sent, now⟩)
      | none => c
  | .toClient i packet now datagramLimit write =>
      match c.live? i with
      | some s =>
          c.handled i (s.forwardToClient ctx packet
            ⟨c.unansweredConnectionBudget, now, datagramLimit, write⟩)
      | none => c
  | .ended i =>
      match c.live? i with
      | some s => { c with sessions := c.sessions.set i ⟨s, false⟩ }
      | none => c

/-- A connection after a run of actions. -/
def run (ctx : Context) (actions : List Action) : Connection :=
  actions.foldl (step · ctx) (new ctx)

end Connection

/-- What a session whose target has not answered has charged. -/
def Slot.owed (slot : Slot) : ℕ :=
  if slot.session.packets = 0 then slot.session.chargedUnanswered else 0

/-- The packets attempted towards a target that has not answered. -/
def Slot.silent (slot : Slot) : ℕ :=
  if slot.session.packets = 0 then slot.session.attempted else 0

/-- A session's own account: until the target answers, what it attempted is what it charged and
what it has left makes up its budget; afterwards it owes nothing. -/
structure Session.Sound (budget : ℕ) (s : Session) : Prop where
  silent : s.packets = 0 →
    ∃ left, s.unansweredBudget = some left ∧ left + s.chargedUnanswered = budget ∧
      s.attempted = s.chargedUnanswered
  answered : s.packets ≠ 0 → s.unansweredBudget = none ∧ s.chargedUnanswered = 0
  attempted_le : s.attempted ≤ budget

namespace Session

variable {s : Session} {budget : ℕ} {ctx : Context}

/-- A new session owes nothing. -/
theorem sound_new (hctx : ctx.unansweredPacketBudget ≠ 0) (quarterStreamId now : ℕ) :
    Sound ctx.unansweredPacketBudget (new ctx quarterStreamId now) where
  silent _ := ⟨ctx.unansweredPacketBudget, by rw [new, if_neg hctx], rfl, rfl⟩
  answered h := absurd rfl h
  attempted_le := Nat.zero_le _

/-- A session charges no more than its budget. -/
theorem Sound.charged_le (h : s.Sound budget) : s.chargedUnanswered ≤ budget := by
  by_cases hpackets : s.packets = 0
  · obtain ⟨left, -, hleft, -⟩ := h.silent hpackets
    omega
  · rw [(h.answered hpackets).2]
    exact Nat.zero_le _

/-- A session is uncapped exactly when its target has answered. -/
theorem Sound.capped (h : s.Sound budget) : s.unansweredBudget = none ↔ s.packets ≠ 0 := by
  constructor
  · intro hnone hsilent
    obtain ⟨left, hleft, -⟩ := h.silent hsilent
    rw [hnone] at hleft
    cases hleft
  · exact fun hanswered => (h.answered hanswered).1

/-- **`forward_to_target` moves what the session charged and the counter together.** -/
theorem Sound.forwardToTarget (h : s.Sound budget) (hctx : ctx.unansweredPacketBudget ≠ 0)
    (path : Path) (payload : List UInt8) (env : Sending) :
    let handled := s.forwardToTarget ctx path payload env
    Sound budget handled.session ∧ handled.session.packets = s.packets ∧
      handled.remaining + handled.session.chargedUnanswered =
        env.remaining + s.chargedUnanswered ∧ handled.remaining ≤ env.remaining := by
  have hpackets := s.forwardToTarget_packets ctx path payload env
  rcases s.forwardToTarget_charge hctx h.capped path payload env with
    ⟨hremaining, hunanswered, hcharged, hattempted⟩ |
    ⟨left, hbudget, hpos, hremaining, hunanswered, hcharged, hattempted⟩
  · refine ⟨⟨?_, ?_, ?_⟩, hpackets, by rw [hremaining, hcharged], by rw [hremaining]⟩
    · rw [hpackets, hunanswered, hcharged, hattempted]
      exact h.silent
    · rw [hpackets, hunanswered, hcharged]
      exact h.answered
    · rw [hattempted]
      exact h.attempted_le
  · have hsilent : s.packets = 0 := by
      by_contra hanswered
      rw [h.capped.mpr hanswered] at hbudget
      cases hbudget
    obtain ⟨left', hleft', hsum, hcount⟩ := h.silent hsilent
    rw [hbudget, Option.some.injEq] at hleft'
    refine ⟨⟨fun _ => ⟨left, hunanswered, ?_, ?_⟩, ?_, ?_⟩, hpackets, ?_, ?_⟩
    · omega
    · rw [hattempted, hcharged, hcount]
    · intro hanswered
      rw [hpackets] at hanswered
      exact absurd hsilent hanswered
    · rw [hattempted]
      omega
    · omega
    · omega

/-- An answer settles the account. -/
theorem Sound.forwardToClient (h : s.Sound budget) (ctx : Context) (packet : List UInt8)
    (env : Replying) : Sound budget (s.forwardToClient ctx packet env).session := by
  obtain ⟨-, hpackets, hunanswered, hcharged, hattempted⟩ :=
    s.forwardToClient_refund ctx packet env
  refine ⟨fun hzero => ?_, fun _ => ⟨hunanswered, hcharged⟩, ?_⟩
  · rw [hpackets] at hzero
    cases hzero
  · rw [hattempted]
    exact h.attempted_le

end Session

/-! ### The balance -/

/-- **What holds in every run**: every session's account is sound, and what is left of the
counter makes up, with what silent targets were charged for, what it started with. -/
structure Conserved (ctx : Context) (c : Connection) : Prop where
  sound : ∀ (i : ℕ) (slot : Slot), c.sessions[i]? = some slot →
    slot.session.Sound ctx.unansweredPacketBudget
  balance : c.unansweredConnectionBudget + Ledger.total Slot.owed c.sessions =
    ctx.unansweredConnectionTotal

variable {c c' : Connection} {ctx : Context} {i : ℕ} {slot : Slot} {action : Action}

/-- A live session stands in its place. -/
theorem Connection.getElem?_of_live? {s : Session} (h : c.live? i = some s) :
    c.sessions[i]? = some ⟨s, true⟩ := by
  rw [live?] at h
  split at h
  · rename_i session heq
    rw [Option.some.injEq] at h
    rw [heq, h]
  · cases h

/-- **Everything a step can do.** Only a session that runs does something. -/
inductive Connection.Steps (ctx : Context) (c : Connection) : Action → Connection → Prop
  | opened (quarterStreamId now : ℕ) :
      Steps ctx c (.opened quarterStreamId now)
        { c with sessions := c.sessions ++ [⟨.new ctx quarterStreamId now, true⟩] }
  | toTarget {i : ℕ} {s : Session} (hslot : c.sessions[i]? = some ⟨s, true⟩) (path : Path)
      (payload : List UInt8) (sent : Except IoError Unit) (now : ℕ) :
      Steps ctx c (.toTarget i path payload sent now)
        (c.handled i (s.forwardToTarget ctx path payload
          ⟨c.unansweredConnectionBudget, sent, now⟩))
  | toClient {i : ℕ} {s : Session} (hslot : c.sessions[i]? = some ⟨s, true⟩)
      (packet : List UInt8) (now : ℕ) (datagramLimit : Option ℕ) (write : Write) :
      Steps ctx c (.toClient i packet now datagramLimit write)
        (c.handled i (s.forwardToClient ctx packet
          ⟨c.unansweredConnectionBudget, now, datagramLimit, write⟩))
  | ended {i : ℕ} {s : Session} (hslot : c.sessions[i]? = some ⟨s, true⟩) :
      Steps ctx c (.ended i) { c with sessions := c.sessions.set i ⟨s, false⟩ }
  | idle (action : Action) : Steps ctx c action c

/-- **What an action does to the sessions and the total.** -/
theorem Connection.steps (c : Connection) (ctx : Context) (action : Action) :
    c.Steps ctx action (c.step ctx action) := by
  cases action with
  | opened quarterStreamId now => exact .opened quarterStreamId now
  | toTarget i path payload sent now =>
      rw [step]
      cases hlive : c.live? i with
      | none => exact .idle _
      | some s => exact .toTarget (getElem?_of_live? hlive) path payload sent now
  | toClient i packet now datagramLimit write =>
      rw [step]
      cases hlive : c.live? i with
      | none => exact .idle _
      | some s => exact .toClient (getElem?_of_live? hlive) packet now datagramLimit write
  | ended i =>
      rw [step]
      cases hlive : c.live? i with
      | none => exact .idle _
      | some s => exact .ended (getElem?_of_live? hlive)

/-- The balance holds before the first session. -/
theorem conserved_new (ctx : Context) : Conserved ctx (.new ctx) where
  sound i slot h := by simp [Connection.new] at h
  balance := rfl

/-- A sound session owes what it has charged. -/
theorem Slot.owed_eq {budget : ℕ} (h : slot.session.Sound budget) :
    slot.owed = slot.session.chargedUnanswered := by
  rw [Slot.owed]
  split_ifs with hpackets
  · rfl
  · exact (h.answered hpackets).2.symm

/-- **The cap of a refund never binds**: what a session charged was there to be charged. -/
theorem Conserved.refund_eq (h : Conserved ctx c) (htotal : ctx.unansweredConnectionTotal ≤ limit32)
    (hslot : c.sessions[i]? = some slot) :
    ctx.refundUnanswered c.unansweredConnectionBudget slot.session.chargedUnanswered =
      c.unansweredConnectionBudget + slot.session.chargedUnanswered := by
  have hle := Ledger.share_le_total Slot.owed hslot
  rw [Slot.owed_eq (h.sound i slot hslot)] at hle
  have hbalance := h.balance
  rw [Context.refundUnanswered]
  split_ifs with hnone
  · rcases hnone with hbudget | hcharged
    · have := (h.sound i slot hslot).charged_le
      omega
    · omega
  · rw [Saturating.add]
    omega

/-- A session is replaced by a sound one, with the counter moved by what it charged. -/
theorem Conserved.replace (h : Conserved ctx c) (hslot : c.sessions[i]? = some slot) (slot' : Slot)
    (hsound : slot'.session.Sound ctx.unansweredPacketBudget) {remaining : ℕ}
    (hremaining : remaining + slot'.session.chargedUnanswered =
      c.unansweredConnectionBudget + slot.session.chargedUnanswered) :
    Conserved ctx ⟨remaining, c.sessions.set i slot'⟩ where
  sound j other hother := by
    rcases (Slots.getElem?_set hslot).mp hother with ⟨rfl, rfl⟩ | ⟨-, hold⟩
    · exact hsound
    · exact h.sound j other hold
  balance := by
    have hset := Ledger.total_set Slot.owed hslot slot'
    rw [Slot.owed_eq hsound, Slot.owed_eq (h.sound i slot hslot)] at hset
    have hbalance := h.balance
    show remaining + Ledger.total Slot.owed (c.sessions.set i slot') = _
    omega

/-- **One step keeps the balance.** -/
theorem Conserved.steps (h : Conserved ctx c) (hctx : ctx.unansweredPacketBudget ≠ 0)
    (htotal : ctx.unansweredConnectionTotal ≤ limit32) (hsteps : c.Steps ctx action c') :
    Conserved ctx c' := by
  cases hsteps with
  | opened quarterStreamId now =>
      have hnew := Session.sound_new hctx quarterStreamId now
      refine ⟨?_, ?_⟩
      · intro j other hother
        rcases Slots.getElem?_concat.mp hother with hold | ⟨-, rfl⟩
        · exact h.sound j other hold
        · exact hnew
      · show _ + Ledger.total Slot.owed (c.sessions ++ [_]) = _
        rw [Ledger.total_concat, ← h.balance]
        rfl
  | toTarget hslot path payload sent now =>
      obtain ⟨hsound, -, hsum, -⟩ := (h.sound _ _ hslot).forwardToTarget hctx path payload
        ⟨c.unansweredConnectionBudget, sent, now⟩
      exact h.replace hslot _ hsound hsum
  | @toClient i s hslot packet now datagramLimit write =>
      have hsound := (h.sound i _ hslot).forwardToClient ctx packet
        ⟨c.unansweredConnectionBudget, now, datagramLimit, write⟩
      obtain ⟨hremaining, -, -, hcharged, -⟩ := s.forwardToClient_refund ctx packet
        ⟨c.unansweredConnectionBudget, now, datagramLimit, write⟩
      refine h.replace hslot _ hsound ?_
      rw [hremaining, hcharged]
      exact h.refund_eq htotal hslot
  | @ended i s hslot =>
      have hsound := h.sound i _ hslot
      exact h.replace hslot ⟨s, false⟩ hsound rfl
  | idle => exact h

/-- **Step lemma**: an action keeps the balance. -/
theorem Conserved.step (h : Conserved ctx c) (hctx : ctx.unansweredPacketBudget ≠ 0)
    (htotal : ctx.unansweredConnectionTotal ≤ limit32) (action : Action) :
    Conserved ctx (c.step ctx action) :=
  h.steps hctx htotal (c.steps ctx action)

/-- **Run lemma**: the balance holds in every interleaving. -/
theorem conserved_run (hctx : ctx.unansweredPacketBudget ≠ 0)
    (htotal : ctx.unansweredConnectionTotal ≤ limit32) (actions : List Action) :
    Conserved ctx (.run ctx actions) := by
  refine List.foldlRecOn (motive := Conserved ctx) actions _ (conserved_new ctx) ?_
  intro c h action _
  exact h.step hctx htotal action

/-! ### Refunds -/

/-- **Only a first packet refunds**: a step that raises the counter is the first packet of a
session's own target, and what it gives back is what that session charged. -/
theorem Conserved.raised (h : Conserved ctx c) (hctx : ctx.unansweredPacketBudget ≠ 0)
    (htotal : ctx.unansweredConnectionTotal ≤ limit32) (hsteps : c.Steps ctx action c')
    (hraised : c.unansweredConnectionBudget < c'.unansweredConnectionBudget) :
    ∃ i packet now datagramLimit write s,
      action = .toClient i packet now datagramLimit write ∧
      c.sessions[i]? = some ⟨s, true⟩ ∧ s.packets = 0 ∧
      c'.unansweredConnectionBudget = c.unansweredConnectionBudget + s.chargedUnanswered := by
  cases hsteps with
  | toTarget hslot path payload sent now =>
      obtain ⟨-, -, -, hle⟩ := (h.sound _ _ hslot).forwardToTarget hctx path payload
        ⟨c.unansweredConnectionBudget, sent, now⟩
      exact absurd hraised (Nat.not_lt.mpr hle)
  | @toClient i s hslot packet now datagramLimit write =>
      obtain ⟨hremaining, -⟩ := s.forwardToClient_refund ctx packet
        ⟨c.unansweredConnectionBudget, now, datagramLimit, write⟩
      have hbudget := hremaining.trans (h.refund_eq htotal hslot)
      refine ⟨i, packet, now, datagramLimit, write, s, rfl, hslot, ?_, hbudget⟩
      by_contra hanswered
      have hcharged := ((h.sound i _ hslot).answered hanswered).2
      rw [hcharged] at hbudget
      exact absurd hraised (Nat.not_lt.mpr (Nat.le_of_eq hbudget))
  | opened | ended | idle => exact absurd hraised (Nat.lt_irrefl _)

/-- The target of session `i` has answered. -/
def Connection.Answered (c : Connection) (i : ℕ) : Prop :=
  ∃ slot, c.sessions[i]? = some slot ∧ slot.session.packets ≠ 0

/-- A session is replaced by one that has heard no less of its target. -/
theorem Connection.Answered.set {j : ℕ} (h : c.Answered i) (hslot : c.sessions[j]? = some slot)
    (slot' : Slot) (hpackets : slot.session.packets ≤ slot'.session.packets) (remaining : ℕ) :
    Connection.Answered ⟨remaining, c.sessions.set j slot'⟩ i := by
  obtain ⟨old, hold, hanswered⟩ := h
  by_cases hij : i = j
  · subst hij
    rw [hslot, Option.some.injEq] at hold
    subst hold
    exact ⟨slot', (Slots.getElem?_set hslot).mpr (Or.inl ⟨rfl, rfl⟩), by omega⟩
  · exact ⟨old, (Slots.getElem?_set hslot).mpr (Or.inr ⟨hij, hold⟩), hanswered⟩

/-- A target that has answered has answered for good. -/
theorem Connection.Answered.steps (h : c.Answered i) (hsteps : c.Steps ctx action c') :
    c'.Answered i := by
  cases hsteps with
  | opened quarterStreamId now =>
      obtain ⟨old, hold, hanswered⟩ := h
      exact ⟨old, Slots.getElem?_concat.mpr (Or.inl hold), hanswered⟩
  | @toTarget j s hslot path payload sent now =>
      have hpackets := s.forwardToTarget_packets ctx path payload
        ⟨c.unansweredConnectionBudget, sent, now⟩
      exact h.set hslot _ (Nat.le_of_eq hpackets.symm) _
  | @toClient j s hslot packet now datagramLimit write =>
      obtain ⟨-, hpackets, -⟩ := s.forwardToClient_refund ctx packet
        ⟨c.unansweredConnectionBudget, now, datagramLimit, write⟩
      exact h.set hslot _ (by rw [hpackets]; exact Nat.le_succ _) _
  | @ended j s hslot => exact h.set hslot ⟨s, false⟩ (Nat.le_refl _) _
  | idle => exact h

/-- Whether an action hands a packet of its target to session `i`. -/
def Action.repliesTo (i : ℕ) : Action → Bool
  | .toClient j _ _ _ _ => j = i
  | _ => false

/-- How often a packet of session `i`'s target raises the counter. -/
def Connection.refunds (ctx : Context) (i : ℕ) (c : Connection) : List Action → ℕ
  | [] => 0
  | action :: actions =>
      let raised := c.unansweredConnectionBudget < (c.step ctx action).unansweredConnectionBudget
      (if action.repliesTo i = true ∧ raised then 1 else 0) +
        (c.step ctx action).refunds ctx i actions

/-- A refund is the answer of the session it is for. -/
theorem Conserved.of_refund (h : Conserved ctx c) (hctx : ctx.unansweredPacketBudget ≠ 0)
    (htotal : ctx.unansweredConnectionTotal ≤ limit32) (hreplies : action.repliesTo i = true)
    (hraised : c.unansweredConnectionBudget < (c.step ctx action).unansweredConnectionBudget) :
    ¬c.Answered i ∧ (c.step ctx action).Answered i := by
  obtain ⟨j, packet, now, datagramLimit, write, s, rfl, hslot, hsilent, -⟩ :=
    h.raised hctx htotal (c.steps ctx action) hraised
  obtain rfl : j = i := by simpa [Action.repliesTo] using hreplies
  constructor
  · rintro ⟨slot, hslot', hanswered⟩
    rw [hslot, Option.some.injEq] at hslot'
    subst hslot'
    exact hanswered hsilent
  · have hlive : c.live? j = some s := by rw [Connection.live?, hslot]
    obtain ⟨-, hpackets, -⟩ := s.forwardToClient_refund ctx packet
      ⟨c.unansweredConnectionBudget, now, datagramLimit, write⟩
    rw [Connection.step, hlive]
    refine ⟨_, (Slots.getElem?_set hslot).mpr (Or.inl ⟨rfl, rfl⟩), ?_⟩
    rw [hpackets]
    exact Nat.succ_ne_zero _

/-- A session whose target has answered is refunded no more. -/
theorem Conserved.refunds_eq_zero (h : Conserved ctx c) (hctx : ctx.unansweredPacketBudget ≠ 0)
    (htotal : ctx.unansweredConnectionTotal ≤ limit32) (hanswered : c.Answered i)
    (actions : List Action) : c.refunds ctx i actions = 0 := by
  induction actions generalizing c with
  | nil => rfl
  | cons action actions ih =>
      rw [Connection.refunds, ih (h.step hctx htotal action) (hanswered.steps (c.steps ctx action))]
      rw [if_neg]
      rintro ⟨hreplies, hraised⟩
      exact (h.of_refund hctx htotal hreplies hraised).1 hanswered

/-- **A session is refunded at most once.** -/
theorem Conserved.refunds_le_one (h : Conserved ctx c) (hctx : ctx.unansweredPacketBudget ≠ 0)
    (htotal : ctx.unansweredConnectionTotal ≤ limit32) (i : ℕ) (actions : List Action) :
    c.refunds ctx i actions ≤ 1 := by
  induction actions generalizing c with
  | nil => exact Nat.zero_le _
  | cons action actions ih =>
      have hstep := h.step hctx htotal action
      rw [Connection.refunds]
      split_ifs with hrefund
      · obtain ⟨-, hanswered⟩ := h.of_refund hctx htotal hrefund.1 hrefund.2
        rw [hstep.refunds_eq_zero hctx htotal hanswered]
      · rw [Nat.zero_add]
        exact ih hstep

/-- What silent targets were sent is what their sessions charged. -/
theorem Conserved.total_silent (h : Conserved ctx c) :
    Ledger.total Slot.silent c.sessions = Ledger.total Slot.owed c.sessions := by
  rw [Ledger.total, Ledger.total]
  congr 1
  refine List.map_congr_left fun slot hmem => ?_
  obtain ⟨i, hslot⟩ := List.getElem?_of_mem hmem
  rw [Slot.silent, Slot.owed]
  split_ifs with hpackets
  · obtain ⟨left, -, -, hcount⟩ := (h.sound i slot hslot).silent hpackets
    exact hcount
  · rfl

/-- **The unanswered-packet budget is conserved.** In every run of a connection's sessions the
counter is its start less what the sessions with silent targets have charged, and a refund is
never capped. Therefore the packets attempted towards silent targets are at most the
connection's total, and those of one session at most its own budget; the counter is raised
only by the first packet of a session's own target, by what that session charged, and at most
once for a session. -/
theorem unanswered_budget_conserved {budget : ℕ} (hbudget : 0 < budget) (stallBudget : ℕ)
    (actions : List Action) :
    let ctx := Context.new budget stallBudget
    let c := Connection.run ctx actions
    ctx.unansweredConnectionTotal = min (8 * budget) (2 ^ 32 - 1) ∧
    c.unansweredConnectionBudget + Ledger.total Slot.owed c.sessions =
      ctx.unansweredConnectionTotal ∧
    Ledger.total Slot.silent c.sessions ≤ ctx.unansweredConnectionTotal ∧
    (∀ slot ∈ c.sessions, slot.session.attempted ≤ budget ∧
      (∀ left, slot.session.unansweredBudget = some left →
        left + slot.session.chargedUnanswered = budget) ∧
      ctx.refundUnanswered c.unansweredConnectionBudget slot.session.chargedUnanswered =
        c.unansweredConnectionBudget + slot.session.chargedUnanswered) ∧
    (∀ action,
      c.unansweredConnectionBudget < (c.step ctx action).unansweredConnectionBudget →
        ∃ i packet now datagramLimit write s,
          action = .toClient i packet now datagramLimit write ∧
          c.sessions[i]? = some ⟨s, true⟩ ∧ s.packets = 0 ∧
          (c.step ctx action).unansweredConnectionBudget =
            c.unansweredConnectionBudget + s.chargedUnanswered) ∧
    ∀ i, (Connection.new ctx).refunds ctx i actions ≤ 1 := by
  intro ctx c
  have hctx : ctx.unansweredPacketBudget ≠ 0 := Nat.ne_of_gt hbudget
  have htotal : ctx.unansweredConnectionTotal ≤ limit32 := Nat.min_le_right _ _
  have h : Conserved ctx c := conserved_run hctx htotal actions
  refine ⟨?_, h.balance, ?_, ?_, ?_, ?_⟩
  · show min (budget * 8) (2 ^ 32 - 1) = _
    rw [Nat.mul_comm]
  · rw [h.total_silent, ← h.balance]
    exact Nat.le_add_left _ _
  · intro slot hmem
    obtain ⟨i, hslot⟩ := List.getElem?_of_mem hmem
    have hsound := h.sound i slot hslot
    refine ⟨hsound.attempted_le, ?_, h.refund_eq htotal hslot⟩
    intro left hleft
    have hsilent : slot.session.packets = 0 := by
      by_contra hanswered
      rw [hsound.capped.mpr hanswered] at hleft
      cases hleft
    obtain ⟨left', hleft', hsum, -⟩ := hsound.silent hsilent
    rw [hleft, Option.some.injEq] at hleft'
    subst hleft'
    exact hsum
  · intro action hraised
    exact h.raised hctx htotal (Connection.steps _ _ _) hraised
  · intro i
    exact (conserved_new ctx).refunds_le_one hctx htotal i actions

/-- Two sessions with a budget of one packet each: both send, and the target of one answers. -/
theorem unanswered_budget_conserved_two :
    let ctx := Context.new 1 30
    let c := Connection.run ctx [.opened 0 0, .opened 1 0, .toTarget 0 .datagram [7] (.ok ()) 1,
      .toTarget 1 .datagram [8] (.ok ()) 2, .toClient 1 [9] 3 (some 1200) .ok]
    c.unansweredConnectionBudget = 7 ∧
      c.unansweredConnectionBudget + Ledger.total Slot.owed c.sessions =
        ctx.unansweredConnectionTotal :=
  ⟨by decide, (unanswered_budget_conserved Nat.one_pos 30 _).2.1⟩

end Udp

end Volto
