import Volto.Congestion.BbrCapped

/-!
# The Life Cycle of the Minimum RTT

What the callbacks of `BbrCapped` do to the minimum RTT and to the probe that measures it again.
`Steps` lists everything one callback can do; the rest is about runs. A probe is told by its
history: `sinceProbe` is the part of a run since a probe last started, with the ACK that started
it first, so the lowest sample since then and the first time that in-flight data had fallen to
the cap are read off it.

## Main results

* `steps`: everything a callback can do to the minimum and the probe.
* `min_rtt_life_cycle`: when the minimum changes, what it is, and how a probe starts and ends.
-/

namespace Volto

namespace Congestion

namespace BbrCapped

variable {quinn : Bbr} {c : BbrCapped quinn} {callback : Callback quinn}

/-! ### One callback -/

/-- An `on_end_acks` finds in-flight data at or below the cap, or no cap yet. -/
def Drains (c : BbrCapped quinn) (callback : Callback quinn) (now : ℕ) : Prop :=
  ∃ inFlight appLimited largest, callback = .onEndAcks now inFlight appLimited largest ∧
    (c.updateRate now inFlight appLimited largest).cap.all (inFlight ≤ ·) = true

/-- The rate filter leaves the smallest round trip. -/
@[simp] theorem updateRate_minRtt (now inFlight : ℕ) (appLimited : Bool) (largest : Option ℕ) :
    (c.updateRate now inFlight appLimited largest).minRtt = c.minRtt := by
  rw [updateRate]
  split <;> rfl

/-- The rate filter leaves the probe. -/
@[simp] theorem updateRate_probe (now inFlight : ℕ) (appLimited : Bool) (largest : Option ℕ) :
    (c.updateRate now inFlight appLimited largest).probe = c.probe := by
  rw [updateRate]
  split <;> rfl

/-- The rate filter leaves the smoothed round trip. -/
@[simp] theorem updateRate_srtt (now inFlight : ℕ) (appLimited : Bool) (largest : Option ℕ) :
    (c.updateRate now inFlight appLimited largest).srtt = c.srtt := by
  rw [updateRate]
  split <;> rfl

/-- **Everything a callback can do** to the minimum and the probe. -/
inductive Steps (c : BbrCapped quinn) : Callback quinn → Option (ℕ × ℕ) → Option Probe → Prop
  /-- No sample, and no probe whose clock starts or runs out. -/
  | quiet {callback : Callback quinn} (hrtt : callback.rttSample = none)
      (hdrains : ∀ probe, c.probe = some probe → probe.ends = none →
        ∀ now, ¬c.Drains callback now) :
      Steps c callback c.minRtt c.probe
  /-- A sample of a probe. -/
  | probed {callback : Callback quinn} {rtt : ℕ} {probe : Probe}
      (hrtt : callback.rttSample = some rtt) (hprobe : c.probe = some probe) :
      Steps c callback c.minRtt (some { probe with min := min probe.min rtt })
  /-- A sample that takes the minimum. -/
  | taken {now sent bytes : ℕ} {appLimited : Bool} {rtt : quinn.RttEstimator}
      (hprobe : c.probe = none) (hle : ∀ least ∈ c.minRtt, now - sent ≤ least.1) :
      Steps c (.onAck now sent bytes appLimited rtt) (some (now - sent, now)) none
  /-- A sample above a minimum that still holds, or that is not to be probed. -/
  | above {callback : Callback quinn} {rtt least taken : ℕ}
      (hrtt : callback.rttSample = some rtt) (hprobe : c.probe = none)
      (hleast : c.minRtt = some (least, taken)) (hlt : least < rtt) :
      Steps c callback c.minRtt none
  /-- A sample above a minimum that has grown old. -/
  | started {now sent bytes least taken : ℕ} {rtt : quinn.RttEstimator} (hprobe : c.probe = none)
      (hleast : c.minRtt = some (least, taken)) (hlt : least < now - sent)
      (hold : minRttLifetime < now - taken) :
      Steps c (.onAck now sent bytes false rtt) c.minRtt (some ⟨now - sent, none⟩)
  /-- In-flight data has fallen to the cap. -/
  | drained {callback : Callback quinn} {now : ℕ} {probe : Probe} (hprobe : c.probe = some probe)
      (hends : probe.ends = none) (hdrains : c.Drains callback now) :
      Steps c callback c.minRtt (some { probe with ends := some (now + max probeTime c.srtt) })
  /-- The time of the probe is up. -/
  | ended {now inFlight ends : ℕ} {appLimited : Bool} {largest : Option ℕ} {probe : Probe}
      (hprobe : c.probe = some probe) (hends : probe.ends = some ends) (hup : ends ≤ now) :
      Steps c (.onEndAcks now inFlight appLimited largest) (some (probe.min, now)) none

/-- What an acknowledgement does to the smallest round trip and the probe. -/
theorem steps_onAck (c : BbrCapped quinn) (now sent bytes : ℕ) (appLimited : Bool)
    (rtt : quinn.RttEstimator) :
    c.Steps (.onAck now sent bytes appLimited rtt) (c.onAck now sent bytes appLimited rtt).minRtt
      (c.onAck now sent bytes appLimited rtt).probe := by
  rw [onAck, recordAck]
  cases hprobe : c.probe with
  | some probe => exact .probed rfl hprobe
  | none =>
      simp only [takeMinimum]
      cases hleast : c.minRtt with
      | none => exact .taken hprobe (by simp [hleast])
      | some least =>
          obtain ⟨least, taken⟩ := least
          simp only
          split_ifs with hlt hold
          · obtain ⟨hlimited, hold⟩ := hold
            obtain rfl : appLimited = false := by simpa using hlimited
            rw [← hleast]
            exact .started hprobe hleast hlt hold
          · rw [← hleast]
            exact .above rfl hprobe hleast hlt
          · exact .taken hprobe (by simpa [hleast] using hlt)

/-- What the end of a batch does to the smallest round trip and the probe. -/
theorem steps_onEndAcks (c : BbrCapped quinn) (now inFlight : ℕ) (appLimited : Bool)
    (largest : Option ℕ) :
    c.Steps (.onEndAcks now inFlight appLimited largest)
      (c.onEndAcks now inFlight appLimited largest).minRtt
      (c.onEndAcks now inFlight appLimited largest).probe := by
  rw [onEndAcks, updateProbe, updateRate_probe]
  cases hprobe : c.probe with
  | none =>
      rw [updateRate_minRtt, updateRate_probe]
      exact .quiet rfl (by simp [hprobe])
  | some probe =>
      simp only
      cases hends : probe.ends with
      | none =>
          simp only
          split_ifs with hcap
          · rw [updateRate_minRtt, updateRate_srtt]
            exact .drained hprobe hends ⟨_, _, _, rfl, hcap⟩
          · rw [updateRate_minRtt, updateRate_probe]
            refine .quiet rfl fun _ _ _ now' hdrains => hcap ?_
            obtain ⟨_, _, _, heq, hcap'⟩ := hdrains
            cases heq
            exact hcap'
      | some ends =>
          simp only
          split_ifs with hup
          · exact .ended hprobe hends hup
          · rw [updateRate_minRtt, updateRate_probe]
            refine .quiet rfl fun probe' hprobe' hnone => ?_
            rw [hprobe, Option.some.injEq] at hprobe'
            rw [← hprobe', hends] at hnone
            cases hnone

/-- **What a callback does to the smallest round trip and the probe.** -/
theorem steps (c : BbrCapped quinn) (callback : Callback quinn) :
    c.Steps callback (c.step callback).minRtt (c.step callback).probe := by
  cases callback with
  | onAck now sent bytes appLimited rtt => exact c.steps_onAck now sent bytes appLimited rtt
  | onEndAcks now inFlight appLimited largest =>
      exact c.steps_onEndAcks now inFlight appLimited largest
  | onSent | onCongestionEvent | onMtuUpdate =>
      refine .quiet rfl fun _ _ _ now hdrains => ?_
      obtain ⟨_, _, _, heq, -⟩ := hdrains
      cases heq

/-! ### Runs -/

/-- A probe starts at a moment. -/
def startsProbe (moment : BbrCapped quinn × Callback quinn) : Bool :=
  moment.1.probe.isNone && (moment.1.step moment.2).probe.isSome

variable {initial : BbrCapped quinn} {events : List (Callback quinn)}

/-- The moments of a run since a probe last started, the ACK that started it first, or since the
beginning when none did. -/
def sinceProbe (initial : BbrCapped quinn) (events : List (Callback quinn)) :
    List (BbrCapped quinn × Callback quinn) :=
  History.sinceLast startsProbe (History.history step initial events)

/-- The RTT samples since then. -/
def rttsSinceProbe (initial : BbrCapped quinn) (events : List (Callback quinn)) : List ℕ :=
  (sinceProbe initial events).filterMap fun moment => moment.2.rttSample

/-- The controller after a run. -/
def run (initial : BbrCapped quinn) (events : List (Callback quinn)) : BbrCapped quinn :=
  History.run step initial events

/-- A run ends with its last callback. -/
@[simp] theorem run_concat (initial : BbrCapped quinn) (events : List (Callback quinn))
    (callback : Callback quinn) :
    run initial (events ++ [callback]) = (run initial events).step callback :=
  History.run_concat step initial events callback

/-- A callback that starts no probe goes behind the others since the last. -/
theorem sinceProbe_of_not_starts (h : startsProbe (run initial events, callback) = false) :
    sinceProbe initial (events ++ [callback]) =
      sinceProbe initial events ++ [(run initial events, callback)] := by
  rw [sinceProbe, History.history_concat, History.sinceLast_concat]
  exact if_neg (Bool.eq_false_iff.mp h)

/-- A callback that starts a probe is the first since then. -/
theorem sinceProbe_of_starts (h : startsProbe (run initial events, callback) = true) :
    sinceProbe initial (events ++ [callback]) = [(run initial events, callback)] := by
  rw [sinceProbe, History.history_concat, History.sinceLast_concat]
  exact if_pos h

/-- The minimum with one more value. -/
theorem min?_concat (l : List ℕ) (a : ℕ) : (l ++ [a]).min? = some (l.min?.elim a (min · a)) := by
  cases l with
  | nil => rfl
  | cons b l =>
      rw [List.cons_append, List.min?_cons', List.min?_cons', List.foldl_append]
      rfl

/-- **What the history tells of the minimum and the probe.** -/
structure Tells (minRtt : Option (ℕ × ℕ)) (probe : Option Probe)
    (history : List (BbrCapped quinn × Callback quinn)) : Prop where
  outside : probe = none →
    minRtt.map Prod.fst = (history.filterMap fun moment => moment.2.rttSample).min?
  inside : ∀ p, probe = some p →
    (history.filterMap fun moment => moment.2.rttSample).min? = some p.min
  waiting : ∀ p, probe = some p → p.ends = none →
    ∀ moment ∈ history, ∀ now, ¬moment.1.Drains moment.2 now
  clocked : ∀ p ends, probe = some p → p.ends = some ends →
    ∃ earlier moment later now, history = earlier ++ moment :: later ∧
      moment.1.Drains moment.2 now ∧ (∀ m ∈ earlier, ∀ now', ¬m.1.Drains m.2 now') ∧
      ends = now + max probeTime moment.1.srtt

variable {history : List (BbrCapped quinn × Callback quinn)}

/-- Nothing has happened yet. -/
theorem tells_nil : Tells none none ([] : List (BbrCapped quinn × Callback quinn)) where
  outside _ := rfl
  inside _ h := by cases h
  waiting _ h := by cases h
  clocked _ _ h := by cases h

/-- An ACK drains nothing. -/
theorem not_drains_of_rttSample {rtt : ℕ} (h : callback.rttSample = some rtt) (now : ℕ) :
    ¬c.Drains callback now := by
  rintro ⟨_, _, _, rfl, -⟩
  cases h

/-- `on_end_acks` brings no sample. -/
theorem rttSample_of_drains {now : ℕ} (h : c.Drains callback now) :
    callback.rttSample = none := by
  obtain ⟨_, _, _, rfl, -⟩ := h
  rfl

/-- A moment without a sample leaves the samples as they were. -/
theorem samples_concat_of_none (h : callback.rttSample = none) :
    (history ++ [(c, callback)]).filterMap (fun moment => moment.2.rttSample) =
      history.filterMap fun moment => moment.2.rttSample := by
  simp [h]

/-- A moment with a sample adds it. -/
theorem samples_concat_of_some {rtt : ℕ} (h : callback.rttSample = some rtt) :
    (history ++ [(c, callback)]).filterMap (fun moment => moment.2.rttSample) =
      history.filterMap (fun moment => moment.2.rttSample) ++ [rtt] := by
  simp [h]

/-- A clock that was set stays accounted for behind one more callback. -/
theorem Tells.clocked_concat {minRtt : Option (ℕ × ℕ)} {p : Probe} {ends : ℕ}
    (h : Tells minRtt (some p) history) (hends : p.ends = some ends)
    (last : BbrCapped quinn × Callback quinn) :
    ∃ earlier moment later now, history ++ [last] = earlier ++ moment :: later ∧
      moment.1.Drains moment.2 now ∧ (∀ m ∈ earlier, ∀ now', ¬m.1.Drains m.2 now') ∧
      ends = now + max probeTime moment.1.srtt := by
  obtain ⟨earlier, moment, later, now, rfl, hrest⟩ := h.clocked p ends rfl hends
  exact ⟨earlier, moment, later ++ [last], now, by simp, hrest⟩

/-- A moment without a sample, at which no clock starts. -/
theorem Tells.concat_quiet (h : Tells c.minRtt c.probe history)
    (hrtt : callback.rttSample = none)
    (hdrains : ∀ probe, c.probe = some probe → probe.ends = none →
      ∀ now, ¬c.Drains callback now) :
    Tells c.minRtt c.probe (history ++ [(c, callback)]) where
  outside hprobe := by
    rw [samples_concat_of_none hrtt]
    exact h.outside hprobe
  inside p hprobe := by
    rw [samples_concat_of_none hrtt]
    exact h.inside p hprobe
  waiting p hprobe hends moment hmem now := by
    rcases List.mem_append.mp hmem with hmem | hmem
    · exact h.waiting p hprobe hends moment hmem now
    · rw [List.mem_singleton.mp hmem]
      exact hdrains p hprobe hends now
  clocked p ends hprobe hends := by
    rw [hprobe] at h
    exact h.clocked_concat hends _

/-- A sample of a probe. -/
theorem Tells.concat_probed {rtt : ℕ} {probe : Probe} (h : Tells c.minRtt (some probe) history)
    (hrtt : callback.rttSample = some rtt) :
    Tells c.minRtt (some { probe with min := min probe.min rtt }) (history ++ [(c, callback)]) where
  outside hprobe := by cases hprobe
  inside p hprobe := by
    cases hprobe
    rw [samples_concat_of_some hrtt, min?_concat, h.inside probe rfl]
    rfl
  waiting p hprobe hends moment hmem now := by
    cases hprobe
    rcases List.mem_append.mp hmem with hmem | hmem
    · exact h.waiting probe rfl hends moment hmem now
    · rw [List.mem_singleton.mp hmem]
      exact not_drains_of_rttSample hrtt now
  clocked p ends hprobe hends := by
    cases hprobe
    exact h.clocked_concat hends _

/-- A sample outside of a probe that starts none, with the minimum it leaves. -/
theorem Tells.concat_outside {minRtt : Option (ℕ × ℕ)} {rtt : ℕ}
    (h : Tells c.minRtt none history) (hrtt : callback.rttSample = some rtt)
    (hmin : minRtt.map Prod.fst = some ((c.minRtt.map Prod.fst).elim rtt (min · rtt))) :
    Tells minRtt none (history ++ [(c, callback)]) where
  outside _ := by rw [samples_concat_of_some hrtt, min?_concat, ← h.outside rfl, hmin]
  inside _ hprobe := by cases hprobe
  waiting _ hprobe := by cases hprobe
  clocked _ _ hprobe := by cases hprobe

/-- In-flight data has fallen to the cap for the first time. -/
theorem Tells.concat_drained {now : ℕ} {probe : Probe} (h : Tells c.minRtt (some probe) history)
    (hends : probe.ends = none) (hdrains : c.Drains callback now) :
    Tells c.minRtt (some { probe with ends := some (now + max probeTime c.srtt) })
      (history ++ [(c, callback)]) where
  outside hprobe := by cases hprobe
  inside p hprobe := by
    cases hprobe
    rw [samples_concat_of_none (rttSample_of_drains hdrains)]
    exact h.inside probe rfl
  waiting p hprobe hnone := by
    cases hprobe
    cases hnone
  clocked p ends hprobe hsome := by
    cases hprobe
    cases hsome
    exact ⟨history, (c, callback), [], now, rfl, hdrains, h.waiting probe rfl hends, rfl⟩

/-- The probe ends with its lowest sample as the minimum. -/
theorem Tells.concat_ended {now : ℕ} {probe : Probe} (h : Tells c.minRtt (some probe) history)
    (hrtt : callback.rttSample = none) :
    Tells (some (probe.min, now)) none (history ++ [(c, callback)]) where
  outside _ := by
    rw [samples_concat_of_none hrtt, h.inside probe rfl]
    rfl
  inside _ hprobe := by cases hprobe
  waiting _ hprobe := by cases hprobe
  clocked _ _ hprobe := by cases hprobe

/-- **One more moment**, at which no probe starts. -/
theorem Tells.concat {minRtt : Option (ℕ × ℕ)} {probe : Option Probe}
    (h : Tells c.minRtt c.probe history) (hsteps : c.Steps callback minRtt probe)
    (hstarts : (c.probe.isNone && probe.isSome) = false) :
    Tells minRtt probe (history ++ [(c, callback)]) := by
  cases hsteps with
  | quiet hrtt hdrains => exact h.concat_quiet hrtt hdrains
  | probed hrtt hprobe =>
      rw [hprobe] at h
      exact h.concat_probed hrtt
  | @taken now sent _ _ _ hprobe hle =>
      rw [hprobe] at h
      refine h.concat_outside rfl ?_
      cases hleast : c.minRtt with
      | none => rfl
      | some least => simp [hle least hleast]
  | above hrtt hprobe hleast hlt =>
      rw [hprobe] at h
      exact h.concat_outside hrtt (by simp [hleast, hlt.le])
  | started hprobe => simp [hprobe] at hstarts
  | drained hprobe hends hdrains =>
      rw [hprobe] at h
      exact h.concat_drained hends hdrains
  | ended hprobe =>
      rw [hprobe] at h
      exact h.concat_ended rfl

/-- **The moment at which a probe starts** tells of it alone. -/
theorem Steps.tells_start {minRtt : Option (ℕ × ℕ)} {probe : Option Probe}
    (hsteps : c.Steps callback minRtt probe) (hstarts : (c.probe.isNone && probe.isSome) = true) :
    Tells minRtt probe [(c, callback)] := by
  cases hsteps with
  | quiet => cases hprobe : c.probe <;> simp [hprobe] at hstarts
  | probed _ hprobe | drained hprobe => simp [hprobe] at hstarts
  | taken | above | ended => simp at hstarts
  | started =>
      refine { outside := ?_, inside := ?_, waiting := ?_, clocked := ?_ }
      · intro hprobe
        cases hprobe
      · intro p hprobe
        cases hprobe
        rfl
      · intro p _ _ moment hmem now'
        rw [List.mem_singleton.mp hmem]
        exact not_drains_of_rttSample rfl now'
      · intro p ends hprobe hends
        cases hprobe
        cases hends

/-- **What the history of a run tells** of the minimum and the probe it leaves. -/
theorem tells_run (inner : quinn.State) (mtu : ℕ) (events : List (Callback quinn)) :
    Tells (run (build inner mtu) events).minRtt (run (build inner mtu) events).probe
      (sinceProbe (build inner mtu) events) := by
  induction events using List.reverseRecOn with
  | nil => exact tells_nil
  | append_singleton events callback ih =>
      rw [run_concat]
      have hsteps := (run (build inner mtu) events).steps callback
      cases hstarts : startsProbe (run (build inner mtu) events, callback) with
      | true =>
          rw [sinceProbe_of_starts hstarts]
          exact hsteps.tells_start hstarts
      | false =>
          rw [sinceProbe_of_not_starts hstarts]
          exact ih.concat hsteps hstarts

/-- The time at which a moment takes the minimum: an ACK outside of a probe with a sample at or
below it, or the end of a probe. -/
def takenAt (moment : BbrCapped quinn × Callback quinn) : Option ℕ :=
  match moment.1.probe, moment.2 with
  | none, .onAck now sent _ _ _ =>
      if moment.1.minRtt.all (now - sent ≤ ·.1) then some now else none
  | some _, .onEndAcks now _ _ _ => if (moment.1.step moment.2).probe.isNone then some now else none
  | _, _ => none

/-- While a probe is in progress, the moments since it started begin with the one that started
it, and it has been in progress ever since. -/
theorem sinceProbe_of_probe (hinitial : initial.probe = none) (events : List (Callback quinn))
    (h : (run initial events).probe.isSome) :
    ∃ start later, sinceProbe initial events = start :: later ∧ startsProbe start = true ∧
      ∀ moment ∈ later, moment.1.probe.isSome := by
  induction events using List.reverseRecOn with
  | nil =>
      rw [run, History.run, List.foldl_nil, hinitial] at h
      cases h
  | append_singleton events callback ih =>
      rw [run_concat] at h
      cases hstarts : startsProbe (run initial events, callback) with
      | true => exact ⟨_, [], sinceProbe_of_starts hstarts, hstarts, by simp⟩
      | false =>
          rw [startsProbe, h, Bool.and_true, Option.isNone_eq_false_iff] at hstarts
          obtain ⟨start, later, heq, hstart, hlater⟩ := ih hstarts
          have hnot : startsProbe (run initial events, callback) = false := by
            rw [startsProbe, h, Bool.and_true, Option.isNone_eq_false_iff]
            exact hstarts
          refine ⟨start, later ++ [(run initial events, callback)], ?_, hstart, ?_⟩
          · rw [sinceProbe_of_not_starts hnot, heq, List.cons_append]
          · intro moment hmem
            rcases List.mem_append.mp hmem with hmem | hmem
            · exact hlater moment hmem
            · rw [List.mem_singleton.mp hmem]
              exact hstarts

/-- A callback stamps the minimum that it takes, and keeps the stamp of any other. -/
theorem minRtt_snd_step (c : BbrCapped quinn) (callback : Callback quinn) :
    (c.step callback).minRtt.map Prod.snd =
      (takenAt (c, callback)).or (c.minRtt.map Prod.snd) := by
  have hsteps := c.steps callback
  rw [takenAt]
  generalize (c.step callback).minRtt = minRtt at *
  generalize (c.step callback).probe = probe at *
  cases hsteps with
  | quiet hrtt => cases hprobe : c.probe <;> cases callback <;> simp_all [Callback.rttSample]
  | probed hrtt hprobe => cases callback <;> simp_all [Callback.rttSample]
  | taken hprobe hle =>
      cases hleast : c.minRtt with
      | none => simp [hprobe]
      | some least => simp [hprobe, hle least hleast, -Nat.sub_le_iff_le_add, -tsub_le_iff_right]
  | above hrtt hprobe hleast hlt =>
      cases callback with
      | onAck now sent =>
          obtain rfl : now - sent = _ := Option.some.inj hrtt
          simp [hprobe, hleast, Nat.not_le.mpr hlt, -Nat.sub_le_iff_le_add, -tsub_le_iff_right]
      | _ => cases hrtt
  | started hprobe hleast hlt =>
      simp [hprobe, hleast, Nat.not_le.mpr hlt, -Nat.sub_le_iff_le_add, -tsub_le_iff_right]
  | drained hprobe hends hdrains =>
      obtain ⟨_, _, _, rfl, -⟩ := hdrains
      simp [hprobe]
  | ended hprobe => simp [hprobe]

/-- **The stamp of the minimum** is the time at which it was last taken. -/
theorem minRtt_snd_run (inner : quinn.State) (mtu : ℕ) (events : List (Callback quinn)) :
    (run (build inner mtu) events).minRtt.map Prod.snd =
      ((History.history step (build inner mtu) events).filterMap takenAt).getLast? := by
  induction events using List.reverseRecOn with
  | nil => rfl
  | append_singleton events callback ih =>
      rw [run_concat, minRtt_snd_step, ih, History.history_concat, List.filterMap_append,
        List.getLast?_append]
      rw [run]
      cases htaken : takenAt (History.run step (build inner mtu) events, callback) <;> simp [htaken]

/-! ### The life cycle -/

/-- **The life cycle of the minimum RTT**, at a callback that a run leads to. -/
structure LifeCycle (initial : BbrCapped quinn) (events : List (Callback quinn))
    (callback : Callback quinn) : Prop where
  /-- Outside of a probe the minimum is the lowest sample since the last probe started. -/
  lowest : (run initial events).probe = none →
    (run initial events).minRtt.map Prod.fst = (rttsSinceProbe initial events).min?
  /-- Its stamp is when it was last taken. -/
  stamped : (run initial events).minRtt.map Prod.snd =
    ((History.history step initial events).filterMap takenAt).getLast?
  /-- It changes only on an ACK outside of a probe, at or below it or the first, and when a probe
  ends. -/
  changes : ((run initial events).step callback).minRtt ≠ (run initial events).minRtt →
    ((run initial events).probe = none ∧ ∃ now sent bytes appLimited rtt,
      callback = .onAck now sent bytes appLimited rtt ∧
      (∀ least ∈ (run initial events).minRtt, now - sent ≤ least.1) ∧
      ((run initial events).step callback).minRtt = some (now - sent, now)) ∨
    ((run initial events).probe.isSome ∧ ((run initial events).step callback).probe = none)
  /-- A probe starts only on a higher sample of a sender that is not app-limited, when the
  minimum has grown old. -/
  starts : (run initial events).probe = none →
    ∀ probe, ((run initial events).step callback).probe = some probe →
    ∃ now sent bytes rtt least taken, callback = .onAck now sent bytes false rtt ∧
      (run initial events).minRtt = some (least, taken) ∧ least < now - sent ∧
      minRttLifetime < now - taken ∧ probe = ⟨now - sent, none⟩
  /-- None starts while one is in progress: it is the same probe that goes on. -/
  continues : ∀ probe, (run initial events).probe = some probe →
    ∀ probe', ((run initial events).step callback).probe = some probe' →
    probe'.min = callback.rttSample.elim probe.min (min probe.min) ∧
      (probe.ends.isSome → probe'.ends = probe.ends)
  /-- A probe in progress has a start, after which there was no other. -/
  begun : (run initial events).probe.isSome →
    ∃ start later, sinceProbe initial events = start :: later ∧ startsProbe start = true ∧
      ∀ moment ∈ later, moment.1.probe.isSome
  /-- It ends only in an `on_end_acks` at least the longer of 200 ms and the smoothed RTT after
  the first one of the probe that found in-flight data at the cap, or no cap; the minimum it
  installs is the lowest sample since it started. -/
  ends : (run initial events).probe.isSome → ((run initial events).step callback).probe = none →
    ∃ now inFlight appLimited largest, callback = .onEndAcks now inFlight appLimited largest ∧
      (∃ earlier moment later drained,
        sinceProbe initial events = earlier ++ moment :: later ∧
        moment.1.Drains moment.2 drained ∧ (∀ m ∈ earlier, ∀ now', ¬m.1.Drains m.2 now') ∧
        drained + max probeTime moment.1.srtt ≤ now) ∧
      ∃ least, (rttsSinceProbe initial events).min? = some least ∧
        ((run initial events).step callback).minRtt = some (least, now)

/-- What a callback changes of the minimum. -/
theorem Steps.changes {minRtt : Option (ℕ × ℕ)} {probe : Option Probe}
    (h : c.Steps callback minRtt probe) (hne : minRtt ≠ c.minRtt) :
    (c.probe = none ∧ ∃ now sent bytes appLimited rtt,
      callback = .onAck now sent bytes appLimited rtt ∧
      (∀ least ∈ c.minRtt, now - sent ≤ least.1) ∧ minRtt = some (now - sent, now)) ∨
    (c.probe.isSome ∧ probe = none) := by
  cases h with
  | quiet | probed | above | started | drained => exact absurd rfl hne
  | taken hprobe hle => exact .inl ⟨hprobe, _, _, _, _, _, rfl, hle, rfl⟩
  | ended hprobe => exact .inr ⟨Option.isSome_of_mem hprobe, rfl⟩

/-- How a probe starts. -/
theorem Steps.starts {minRtt : Option (ℕ × ℕ)} {probe : Probe}
    (h : c.Steps callback minRtt (some probe)) (hnone : c.probe = none) :
    ∃ now sent bytes rtt least taken, callback = .onAck now sent bytes false rtt ∧
      c.minRtt = some (least, taken) ∧ least < now - sent ∧
      minRttLifetime < now - taken ∧ probe = ⟨now - sent, none⟩ := by
  generalize hafter : some probe = after at h
  cases h with
  | quiet => simp [hnone] at hafter
  | probed _ hprobe | drained hprobe => simp [hnone] at hprobe
  | taken | above | ended => cases hafter
  | started _ hleast hlt hold =>
      exact ⟨_, _, _, _, _, _, rfl, hleast, hlt, hold, Option.some.inj hafter⟩

/-- How a probe goes on. -/
theorem Steps.continues {minRtt : Option (ℕ × ℕ)} {probe probe' : Probe}
    (h : c.Steps callback minRtt (some probe')) (hprobe : c.probe = some probe) :
    probe'.min = callback.rttSample.elim probe.min (min probe.min) ∧
      (probe.ends.isSome → probe'.ends = probe.ends) := by
  generalize hafter : some probe' = after at h
  cases h with
  | quiet hrtt =>
      obtain rfl : probe' = probe := by simpa [hprobe] using hafter
      rw [hrtt]
      exact ⟨rfl, fun _ => rfl⟩
  | probed hrtt hprobe' =>
      rw [hprobe, Option.some.injEq] at hprobe'
      subst hprobe'
      cases hafter
      rw [hrtt]
      exact ⟨rfl, fun _ => rfl⟩
  | taken | above | ended => cases hafter
  | started hnone => simp [hprobe] at hnone
  | drained hprobe' hends hdrains =>
      rw [hprobe, Option.some.injEq] at hprobe'
      subst hprobe'
      cases hafter
      rw [rttSample_of_drains hdrains, hends]
      exact ⟨rfl, nofun⟩

/-- How a probe ends. -/
theorem Steps.ends {minRtt : Option (ℕ × ℕ)} {probe : Probe}
    (h : c.Steps callback minRtt none) (hprobe : c.probe = some probe) :
    ∃ now inFlight appLimited largest ends,
      callback = .onEndAcks now inFlight appLimited largest ∧ probe.ends = some ends ∧
      ends ≤ now ∧ minRtt = some (probe.min, now) := by
  generalize hafter : (none : Option Probe) = after at h
  cases h with
  | quiet => simp [hprobe] at hafter
  | taken hnone | above _ hnone | started hnone => simp [hprobe] at hnone
  | probed | drained => cases hafter
  | ended hprobe' hends hup =>
      rw [hprobe, Option.some.injEq] at hprobe'
      subst hprobe'
      exact ⟨_, _, _, _, _, rfl, hends, hup, rfl⟩

/-- **The minimum RTT goes through its documented life cycle**, in every run of callbacks. -/
theorem min_rtt_life_cycle (inner : quinn.State) (mtu : ℕ) (events : List (Callback quinn))
    (callback : Callback quinn) : LifeCycle (build inner mtu) events callback := by
  have hsteps := (run (build inner mtu) events).steps callback
  have htells := tells_run inner mtu events
  refine
    { lowest := htells.outside
      stamped := minRtt_snd_run inner mtu events
      changes := hsteps.changes
      starts := ?_
      continues := ?_
      begun := sinceProbe_of_probe rfl events
      ends := ?_ }
  · intro hnone probe hprobe
    rw [hprobe] at hsteps
    exact hsteps.starts hnone
  · intro probe hprobe probe' hprobe'
    rw [hprobe'] at hsteps
    exact hsteps.continues hprobe
  · intro hsome hnone
    obtain ⟨probe, hprobe⟩ := Option.isSome_iff_exists.mp hsome
    rw [hnone] at hsteps
    obtain ⟨now, inFlight, appLimited, largest, ends, hcallback, hends, hup, hmin⟩ :=
      hsteps.ends hprobe
    obtain ⟨earlier, moment, later, drained, heq, hdrains, hearlier, rfl⟩ :=
      htells.clocked probe ends hprobe hends
    exact ⟨now, inFlight, appLimited, largest, hcallback,
      ⟨earlier, moment, later, drained, heq, hdrains, hearlier, hup⟩,
      probe.min, htells.inside probe hprobe, hmin⟩

end BbrCapped

end Congestion

end Volto
