import Volto.Tunnel.Quota

/-!
# The Drain

When a `wait_until_idle` of `tunnel/quota.rs` completes. It completes only after it has read both
counts at zero, one after the other (`Completes`). That it completes at all rests on the order of
the two steps of a drop: a wait that has found the quota busy always has something to wait for
(`Told`), as long as it is the only one.

## Main results

* `live_zero_of_readPending`: what a wait that completes has read.
* `Told.step`: a wait that is alone misses no release.
* `quota_exact`: the quota counts exactly, and the drain ends when it should.
-/

namespace Volto

namespace Tunnel

namespace Quota

variable {tokio : Sync} {limit : UInt32} {s : Quota tokio} {w : ℕ} {phase phase' : Waiting}

/-! ### Where a wait completes -/

/-- The next step of a wait completes it. -/
def Completes (s : Quota tokio) (w : ℕ) : Prop :=
  s.waits[w]? ≠ some .done ∧ (s.step (.advance w)).waits[w]? = some .done

/-- A wait completes where it reads no requests, and has read no tunnels before. -/
theorem Completes.readPending (h : Completes s w) :
    s.waits[w]? = some .readPending ∧ ¬0 < s.pending := by
  obtain ⟨hbefore, hafter⟩ := h
  cases hw : s.waits[w]? with
  | none =>
      rw [step_advance_of_none hw, hw] at hafter
      cases hafter
  | some phase =>
      rw [step_advance hw] at hafter
      cases phase with
      | created | readLive =>
          rw [waitUntilIdle] at hafter
          split_ifs at hafter
          · simp [Slots.getElem?_set hw] at hafter
          · simp [Slots.getElem?_set hw] at hafter
      | readPending =>
          rw [waitUntilIdle] at hafter
          split_ifs at hafter with hpending
          · simp [Slots.getElem?_set hw] at hafter
          · exact ⟨rfl, hpending⟩
      | park | parked =>
          simp only [waitUntilIdle, Slots.getElem?_set hw] at hafter
          split_ifs at hafter <;> simp at hafter
      | done => exact absurd hw hbefore
      | dropped =>
          rw [waitUntilIdle, hw] at hafter
          cases hafter

/-- What happens beside a wait leaves it where it is. -/
theorem step_beside {event : QuotaEvent} (hevent : event ≠ .advance w)
    (hphase : phase ≠ .created) (hphase' : phase ≠ .dropped)
    (hw : (s.step event).waits[w]? = some phase) : s.waits[w]? = some phase := by
  cases event with
  | acquire =>
      rw [step, acquire] at hw
      cases hacquire : tokio.semaphore.tryAcquire s.permits with
      | none =>
          rw [hacquire] at hw
          exact hw
      | some permits =>
          rw [hacquire] at hw
          exact hw
  | enter => exact hw
  | dropSlot =>
      rw [step, dropSlot] at hw
      split_ifs at hw <;> exact hw
  | dropPending =>
      rw [step, dropPending] at hw
      split_ifs at hw <;> exact hw
  | announce =>
      rw [step, announce] at hw
      split_ifs at hw <;> exact hw
  | wait =>
      rcases Slots.getElem?_concat.mp hw with hw | ⟨-, heq⟩
      · exact hw
      · exact absurd heq hphase
  | advance v =>
      have hne : w ≠ v := fun heq => hevent (heq ▸ rfl)
      cases hv : s.waits[v]? with
      | none =>
          rw [step_advance_of_none hv] at hw
          exact hw
      | some other =>
          rw [step_advance hv] at hw
          cases other with
          | created | readLive | readPending =>
              rw [waitUntilIdle] at hw
              split_ifs at hw <;> simpa [Slots.getElem?_set hv, hne] using hw
          | park | parked => simpa [waitUntilIdle, Slots.getElem?_set hv, hne] using hw
          | done | dropped => exact hw
  | dropWait v =>
      cases hv : s.waits[v]? with
      | none =>
          simp only [step, hv] at hw
          exact hw
      | some other =>
          simp only [step, hv] at hw
          cases other with
          | created | parked =>
              rcases (Slots.getElem?_set hv).mp hw with ⟨-, heq⟩ | ⟨-, hw⟩
              · exact absurd heq hphase'
              · exact hw
          | readLive | readPending | park | done | dropped => exact hw

/-- A wait reads the requests because it has read no tunnels. -/
theorem waitUntilIdle_readPending (hw : s.waits[w]? = some phase)
    (h : (s.waitUntilIdle w phase).waits[w]? = some .readPending) : ¬0 < s.live := by
  cases phase with
  | created | readLive =>
      rw [waitUntilIdle] at h
      split_ifs at h with hlive
      · simp [Slots.getElem?_set hw] at h
      · exact hlive
  | readPending =>
      rw [waitUntilIdle] at h
      split_ifs at h <;> simp [Slots.getElem?_set hw] at h
  | park | parked =>
      simp only [waitUntilIdle, Slots.getElem?_set hw] at h
      split_ifs at h <;> simp at h
  | done | dropped =>
      rw [waitUntilIdle, hw] at h
      cases h

/-- **A wait that reads the requests has read no tunnels before**, and has taken no step since. -/
theorem live_zero_of_readPending (limit : UInt32) {events : List QuotaEvent}
    (hw : ((new tokio limit).run events).waits[w]? = some .readPending) :
    ∃ front beside, events = front ++ .advance w :: beside ∧ .advance w ∉ beside ∧
      ((new tokio limit).run front).slots = 0 := by
  refine History.exists_last (Q := fun s : Quota tokio => s.waits[w]? = some .readPending)
    (R := fun before _ => before.slots = 0) ?_ (fun front hafter => ?_)
    (fun t event hne hafter => ?_) hw
  · exact fun hnew => by cases hnew
  · change (((new tokio limit).run front).step (.advance w)).waits[w]? = _ at hafter
    cases hbefore : ((new tokio limit).run front).waits[w]? with
    | none =>
        rw [step_advance_of_none hbefore, hbefore] at hafter
        cases hafter
    | some phase =>
        rw [step_advance hbefore] at hafter
        have hlive := waitUntilIdle_readPending hbefore hafter
        rw [(inv_run limit front).live_pos] at hlive
        exact Nat.eq_zero_of_not_pos hlive
  · exact ⟨step_beside hne (by decide) (by decide) hafter, fun _ hslots => hslots⟩

/-! ### No release is missed -/

/-- At most one wait may still be polled. -/
def Alone (s : Quota tokio) : Prop :=
  ∀ (v w : ℕ) (phase phase' : Waiting), s.waits[v]? = some phase → s.waits[w]? = some phase' →
    phase.alive = true → phase'.alive = true → v = w

/-- **A wait that has found the quota busy has something to wait for**: a guard that is
outstanding, a drop that has yet to announce itself, or a notification it has not noticed. -/
def Told (s : Quota tokio) : Prop :=
  ∀ (w : ℕ) (phase : Waiting), s.waits[w]? = some phase → phase.sleeps →
    0 < s.slots ∨ 0 < s.pendings ∨ 0 < s.releasing ∨ Notify.Heard tokio.notify s.idle w

/-- Nobody is to be told anything of a new quota. -/
theorem told_new (limit : UInt32) : Told (new tokio limit) := by
  intro w phase hw
  cases hw

/-- Only the wait that takes a step needs to be looked at, when it is alone. -/
theorem Told.set {s' : Quota tokio} (halone : Alone s) (hw : s.waits[w]? = some phase)
    (halive : phase.alive = true) (hwaits : s'.waits = s.waits.set w phase')
    (hsleeps : phase'.sleeps →
      0 < s'.slots ∨ 0 < s'.pendings ∨ 0 < s'.releasing ∨ Notify.Heard tokio.notify s'.idle w) :
    Told s' := by
  intro v other hv hother
  rw [hwaits, Slots.getElem?_set hw] at hv
  rcases hv with ⟨rfl, rfl⟩ | ⟨hne, hv⟩
  · exact hsleeps hother
  · exact absurd (halone v w other phase hv hw (Waiting.alive_of_sleeps hother) halive) hne

/-- A step of the one wait keeps the account of who is told. -/
theorem Told.waitUntilIdle (h : Told s) (hinv : Inv limit s) (halone : Alone s)
    (hw : s.waits[w]? = some phase) : Told (s.waitUntilIdle w phase) := by
  cases phase with
  | created | readLive =>
      rw [Quota.waitUntilIdle]
      split_ifs with hlive
      · exact Told.set halone hw rfl rfl fun _ => .inl (hinv.live_pos.mp hlive)
      · exact Told.set halone hw rfl rfl False.elim
  | readPending =>
      rw [Quota.waitUntilIdle]
      split_ifs with hpending
      · exact Told.set halone hw rfl rfl fun _ => .inr (.inl (hinv.pendings_pos hpending))
      · exact Told.set halone hw rfl rfl False.elim
  | park | parked =>
      rw [Quota.waitUntilIdle]
      refine Told.set halone hw rfl rfl fun hsleeps => ?_
      rcases h w _ hw trivial with hslots | hpendings | hreleasing | hheard
      · exact .inl hslots
      · exact .inr (.inl hpendings)
      · exact .inr (.inr (.inl hreleasing))
      · -- what it has heard would have made this poll ready
        rw [hinv.tidy.ready_of_heard hheard] at hsleeps
        exact hsleeps.elim
  | done | dropped => exact h

/-- **A wait that is alone misses no release.** -/
theorem Told.step (h : Told s) (hinv : Inv limit s) (halone : Alone s) (event : QuotaEvent) :
    Told (s.step event) := by
  cases event with
  | acquire =>
      rw [Quota.step, acquire]
      cases tokio.semaphore.tryAcquire s.permits with
      | none => exact h
      | some permits => exact fun w phase hw hsleeps => .inl (Nat.succ_pos _)
  | enter => exact fun w phase hw hsleeps => .inr (.inl (Nat.succ_pos _))
  | dropSlot =>
      rw [Quota.step, dropSlot]
      split_ifs
      · exact h
      · exact fun w phase hw hsleeps => .inr (.inr (.inl (Nat.succ_pos _)))
  | dropPending =>
      rw [Quota.step, dropPending]
      split_ifs
      · exact h
      · exact fun w phase hw hsleeps => .inr (.inr (.inl (Nat.succ_pos _)))
  | announce =>
      rw [Quota.step, announce]
      split_ifs
      · exact h
      · -- whoever waits is this one
        intro w phase hw hsleeps
        refine .inr (.inr (.inr (Notify.heard_notifyOne fun v hv => ?_)))
        have hparked := (hinv.tidy.parked v).mpr (.inr hv)
        exact halone v w .parked phase hparked hw rfl (Waiting.alive_of_sleeps hsleeps)
  | wait =>
      intro w phase hw hsleeps
      rcases Slots.getElem?_concat.mp hw with hw | ⟨-, rfl⟩
      · exact h w phase hw hsleeps
      · exact hsleeps.elim
  | advance w =>
      rw [Quota.step]
      split
      · exact h
      · rename_i phase hw
        exact h.waitUntilIdle hinv halone hw
  | dropWait w =>
      rw [Quota.step]
      split
      · exact h
      · rename_i phase hw
        cases phase with
        | created | parked => exact Told.set halone hw rfl rfl False.elim
        | readLive | readPending | park | done | dropped => exact h

/-- A run in which no wait is made while another may still be polled. -/
def OneAtATime (tokio : Sync) (limit : UInt32) (events : List QuotaEvent) : Prop :=
  ∀ front, front <+: events → Alone ((new tokio limit).run front)

/-- **Run lemma**: with one wait at a time, whoever waits is told. -/
theorem told_run {events : List QuotaEvent} (h : OneAtATime tokio limit events) :
    Told ((new tokio limit).run events) := by
  induction events using List.reverseRecOn with
  | nil => exact told_new limit
  | append_singleton events event ih =>
      have hbefore : OneAtATime tokio limit events :=
        fun front hfront => h front (hfront.trans (List.prefix_append _ _))
      rw [run_concat]
      exact (ih hbefore).step (inv_run limit events) (h events (List.prefix_append _ _)) event

/-! ### The last poll -/

/-- A wait reads that the quota is idle. -/
theorem done_of_readLive (hinv : Inv limit s) (hslots : s.slots = 0) (hpendings : s.pendings = 0)
    (hw : s.waits[w]? = some phase) (hphase : phase = .created ∨ phase = .readLive) :
    (s.run [.advance w, .advance w]).waits[w]? = some .done := by
  have hlive : ¬0 < s.live := by
    rw [hinv.live_pos, hslots]
    exact Nat.lt_irrefl 0
  have hpending : ¬0 < s.pending := fun hpos =>
    absurd (hinv.pendings_pos hpos) (hpendings ▸ Nat.lt_irrefl 0)
  have hlt := (List.getElem?_eq_some_iff.mp hw).1
  have hread : s.step (.advance w) = { s with waits := s.waits.set w .readPending } := by
    rw [step_advance hw]
    rcases hphase with rfl | rfl <;> exact if_neg hlive
  rw [run_cons, run_cons, hread]
  simp only [step, List.getElem?_set_self hlt, waitUntilIdle, if_neg hpending]
  exact List.getElem?_set_self (by simpa using hlt)

/-- **A poll completes where nothing is outstanding**, once the wait has heard of it. -/
theorem exists_done (hinv : Inv limit s) (hslots : s.slots = 0) (hpendings : s.pendings = 0)
    (hw : s.waits[w]? = some phase) (halive : phase.alive = true)
    (hheard : phase.sleeps → Notify.Heard tokio.notify s.idle w) :
    ∃ n ≤ 3, (s.run (List.replicate n (.advance w))).waits[w]? = some .done := by
  have hlt := (List.getElem?_eq_some_iff.mp hw).1
  cases phase with
  | created => exact ⟨2, by omega, done_of_readLive hinv hslots hpendings hw (.inl rfl)⟩
  | readLive => exact ⟨2, by omega, done_of_readLive hinv hslots hpendings hw (.inr rfl)⟩
  | readPending =>
      have hpending : ¬0 < s.pending := fun hpos =>
        absurd (hinv.pendings_pos hpos) (hpendings ▸ Nat.lt_irrefl 0)
      refine ⟨1, by omega, ?_⟩
      rw [List.replicate_one, run_cons, step_advance hw, waitUntilIdle, if_neg hpending]
      exact List.getElem?_set_self hlt
  | park | parked =>
      refine ⟨3, by omega, ?_⟩
      have hready := hinv.tidy.ready_of_heard (hheard trivial)
      have hstep : s.step (.advance w) = { s with
          idle := (tokio.notify.poll s.idle w).2
          waits := s.waits.set w .readLive } := by
        rw [step_advance hw]
        simp only [waitUntilIdle, hready, if_true]
      have hinv' := hinv.step (.advance w)
      change (((s.step (.advance w)).run [.advance w, .advance w]).waits[w]? = some .done)
      refine done_of_readLive hinv' ?_ ?_ ?_ (.inr rfl)
      · rw [hstep]
        exact hslots
      · rw [hstep]
        exact hpendings
      · rw [hstep]
        exact List.getElem?_set_self hlt
  | done | dropped => cases halive

/-! ### The quota -/

/-- Requests that are accepted and never finish stay outstanding. -/
theorem run_enters (tokio : Sync) (limit : UInt32) (n : ℕ) :
    let s := (new tokio limit).run (List.replicate n .enter)
    s.slots = 0 ∧ s.pendings = n := by
  induction n with
  | zero => exact ⟨rfl, rfl⟩
  | succ n ih =>
      rw [List.replicate_succ', run_concat]
      exact ⟨ih.1, congrArg Nat.succ ih.2⟩

/-- Where the drain is not exact: the two reads of a wait with a `Slot` taken in between, a release
that has yet to announce itself, a second wait that the one announcement does not reach, and a
count of requests that has gone round. -/
theorem idle_wait_inexact :
    (∃ events w, let s := (new .reference 1).run events
      s.Completes w ∧ 0 < s.slots) ∧
    (∃ events w, let s := (new .reference 1).run events
      s.slots = 0 ∧ s.pendings = 0 ∧ s.waits[w]? = some .parked ∧
        (s.step (.advance w)).waits[w]? = some .parked) ∧
    (∃ events w, let s := (new .reference 1).run events
      s.slots = 0 ∧ s.pendings = 0 ∧ s.releasing = 0 ∧ s.waits[w]? = some .parked ∧
        (s.step (.advance w)).waits[w]? = some .parked) ∧
    ∃ events, let s := (new .reference 1).run events
      0 < s.pendings ∧ s.isBusy = false := by
  refine ⟨⟨[.enter, .wait, .advance 0, .acquire, .dropPending], 0, ?_⟩,
    ⟨[.acquire, .wait, .advance 0, .advance 0, .dropSlot], 0, ?_⟩,
    ⟨[.acquire, .wait, .wait, .advance 0, .advance 0, .advance 1, .advance 1, .dropSlot,
      .announce], 1, ?_⟩,
    ⟨List.replicate UInt32.size .enter, ?_⟩⟩
  · exact ⟨⟨by decide, by decide⟩, by decide⟩
  · exact ⟨rfl, rfl, by decide, by decide⟩
  · exact ⟨rfl, rfl, rfl, by decide, by decide⟩
  · have hinv : Inv 1 ((new .reference 1).run (List.replicate UInt32.size .enter)) :=
      inv_run 1 (List.replicate UInt32.size .enter)
    obtain ⟨hslots, hpendings⟩ := run_enters .reference 1 UInt32.size
    have hlive := hinv.live_pos
    have hpending := hinv.pending
    rw [hpendings, Nat.mod_self] at hpending
    rw [hslots] at hlive
    refine ⟨by rw [hpendings]; decide, ?_⟩
    rw [isBusy, Bool.or_eq_false_iff, decide_eq_false_iff_not, decide_eq_false_iff_not, hlive,
      UInt32.lt_iff_toNat_lt, hpending]
    exact ⟨Nat.lt_irrefl 0, Nat.lt_irrefl 0⟩

/-- **The tunnel quota counts exactly, and the drain ends when it should**, in every interleaving
of slots and requests that are taken and dropped with waits that are polled and dropped.

* The tunnels that are counted are the slots outstanding, and never more than the limit.
* A slot is taken where fewer than the limit are outstanding, whoever waits.
* The quota is busy where a slot or a request is outstanding.
* A wait completes only where no request is outstanding, after it has read that no tunnel was. So
  where no slot outlives its request, nothing is outstanding.
* Where nothing is outstanding the first poll of a wait completes. So does a later one, when no
  release has yet to announce itself and no two waits were made at once; one that is parked then
  has been woken. -/
theorem quota_exact (tokio : Sync) (limit : UInt32) (events : List QuotaEvent) :
    let initial := new tokio limit
    let s := initial.run events
    (s.live.toNat = s.slots ∧ s.slots ≤ limit.toNat) ∧
    (s.acquire.isSome = true ↔ s.live < limit) ∧
    (s.pendings < UInt32.size → (s.isBusy = true ↔ 0 < s.slots ∨ 0 < s.pendings)) ∧
    (∀ w, s.Completes w → s.pendings < UInt32.size →
      s.pendings = 0 ∧
      (∃ front beside, events = front ++ .advance w :: beside ∧ .advance w ∉ beside ∧
        (initial.run front).slots = 0) ∧
      ((0 < s.slots → 0 < s.pendings) → s.slots = 0)) ∧
    ∀ w phase, s.waits[w]? = some phase → phase.alive = true → s.slots = 0 → s.pendings = 0 →
      (phase.sleeps → OneAtATime tokio limit events ∧ s.releasing = 0) →
      (phase = .parked → w ∈ tokio.notify.notified s.idle) ∧
        ∃ n ≤ 3, (s.run (List.replicate n (.advance w))).waits[w]? = some .done := by
  intro initial s
  have hinv : Inv limit s := inv_run limit events
  refine ⟨⟨hinv.toNat_live, hinv.slots_le⟩, hinv.isSome_acquire, fun hfew => ?_,
    fun w hcompletes hfew => ?_, fun w phase hw halive hslots hpendings hquiet => ?_⟩
  · rw [isBusy, Bool.or_eq_true, decide_eq_true_iff, decide_eq_true_iff, hinv.live_pos,
      hinv.pending_pos hfew]
  · obtain ⟨hread, hpending⟩ := hcompletes.readPending
    have hnone : ¬0 < s.pendings := mt (hinv.pending_pos hfew).mpr hpending
    refine ⟨Nat.eq_zero_of_not_pos hnone, live_zero_of_readPending limit hread, fun hnested => ?_⟩
    exact Nat.eq_zero_of_not_pos fun hpos => hnone (hnested hpos)
  · have hheard : phase.sleeps → Notify.Heard tokio.notify s.idle w := by
      intro hsleeps
      obtain ⟨halone, hreleasing⟩ := hquiet hsleeps
      rcases told_run halone w phase hw hsleeps with hpos | hpos | hpos | hheard
      · exact absurd hpos (hslots ▸ Nat.lt_irrefl 0)
      · exact absurd hpos (hpendings ▸ Nat.lt_irrefl 0)
      · exact absurd hpos (hreleasing ▸ Nat.lt_irrefl 0)
      · exact hheard
    refine ⟨fun hparked => ?_, exists_done hinv hslots hpendings hw halive hheard⟩
    subst hparked
    rcases hheard trivial with hkept | hnotified
    · -- nobody waits beside a notification that is kept
      refine ((hinv.tidy.parked w).mp hw).resolve_right fun hmem => ?_
      rw [hinv.tidy.spent hkept] at hmem
      cases hmem
    · exact hnotified

end Quota

end Tunnel

end Volto
