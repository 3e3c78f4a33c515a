import Volto.Congestion.MinRtt

/-!
# The Delivery Rate in a Probe

A probe holds the window below the rate of the path, so that its ACKs count as app-limited: a
sample that is app-limited is stored only above the estimate and never lowers it. It is the ACKs
that are marked, though, and not the interval. An interval of the probe in which no ACK is counted
and no batch reports an app-limited sender is not app-limited, its sample is zero, and that is
stored. Like any zero sample it expires nothing, but it takes the slot of the sample stored ten
stores before it, and lowers the estimate when that slot alone held it.

## Main results

* `keepsEstimate_iff`: when an interval within a probe lowers the estimate.
* `probe_keeps_estimate_iff`: the same for all the intervals of a run.
-/

namespace Volto

namespace Congestion

namespace DeliveryRate

variable {d : DeliveryRate}

/-- The three ways an ACK batch ends. -/
theorem onEndAcks_cases (d : DeliveryRate) (now : ℕ) (appLimited : Bool) (round : ℕ) :
    (d.started = none ∧
      d.onEndAcks now appLimited round = (none, (d.limit appLimited).restart now)) ∨
    (d.started.isSome ∧ d.onEndAcks now appLimited round = (none, d.limit appLimited)) ∨
    ∃ elapsed, d.onEndAcks now appLimited round =
      (some ((d.limit appLimited).measure elapsed),
        ((d.limit appLimited).close ((d.limit appLimited).measure elapsed)).restart now) := by
  rw [onEndAcks]
  cases hstarted : d.started with
  | none => exact .inl ⟨rfl, by simp [limit, hstarted]⟩
  | some started =>
      have hlimit : (d.limit appLimited).started = some started := hstarted
      simp only [hlimit]
      split_ifs
      · exact .inr (.inl ⟨rfl, rfl⟩)
      · exact .inr (.inr ⟨now - started, rfl⟩)

/-- Zero bytes are a zero sample. -/
theorem measure_rate_of_bytes (h : d.bytes = 0) (elapsed : ℕ) : (d.measure elapsed).rate = 0 := by
  simp [DeliveryRate.measure, h]

/-- **A zero sample lowers the estimate exactly when the slot that it takes held it alone.** -/
theorem peak_write_zero_lt_iff (d : DeliveryRate) :
    (d.write 0).peak < d.peak ↔ ∀ i, i ≠ d.next → d.samples i < d.samples d.next := by
  have hsamples : (d.write 0).samples = Function.update d.samples d.next 0 := rfl
  constructor
  · intro hlt i hi
    by_contra hle
    refine Nat.not_le_of_lt hlt (peak_le fun j => ?_)
    have hkept := (d.write 0).le_peak i
    rw [hsamples, Function.update_of_ne hi] at hkept
    by_cases hj : j = d.next
    · subst hj
      exact (Nat.le_of_not_lt hle).trans hkept
    · have hother := (d.write 0).le_peak j
      rwa [hsamples, Function.update_of_ne hj] at hother
  · intro hothers
    obtain ⟨i, hi⟩ := (d.write 0).exists_peak
    rw [← hi, hsamples]
    refine Nat.lt_of_lt_of_le ?_ (d.le_peak d.next)
    by_cases hnext : i = d.next
    · -- the slot itself: any other one shows that it held something
      have hsome : ∀ next : Fin samplesKept, ∃ other, other ≠ next := by decide
      obtain ⟨other, hother⟩ := hsome d.next
      rw [hnext, Function.update_self]
      exact Nat.zero_lt_of_lt (hothers other hother)
    · rw [Function.update_of_ne hnext]
      exact hothers i hnext

end DeliveryRate

namespace BbrCapped

variable {quinn : Bbr} {c initial : BbrCapped quinn} {callback : Callback quinn}
  {events : List (Callback quinn)}

/-! ### Intervals -/

/-- The sample interval that a moment closes. -/
def closes (moment : BbrCapped quinn × Callback quinn) : Option Sample :=
  match moment.2 with
  | .onEndAcks now _ appLimited _ => (moment.1.rate.onEndAcks now appLimited moment.1.srtt).1
  | _ => none

/-- A sample interval starts at a moment: the first one, or the one after an interval that
closes. -/
def startsInterval (moment : BbrCapped quinn × Callback quinn) : Bool :=
  match moment.2 with
  | .onEndAcks _ _ _ _ => moment.1.rate.started.isNone || (closes moment).isSome
  | _ => false

/-- The moments since the interval in progress started, its start first. -/
def sinceStart (initial : BbrCapped quinn) (events : List (Callback quinn)) :
    List (BbrCapped quinn × Callback quinn) :=
  History.sinceLast startsInterval (History.history step initial events)

/-- The callback is not an ACK and reports no app-limited sender. -/
def silent : Callback quinn → Bool
  | .onAck _ _ _ _ _ => false
  | .onEndAcks _ _ appLimited _ => !appLimited
  | _ => true

/-- A moment marks the interval in progress as app-limited. -/
def marks (moment : BbrCapped quinn × Callback quinn) : Bool :=
  match moment.2 with
  | .onAck _ _ _ appLimited _ => appLimited || moment.1.probe.isSome
  | .onEndAcks _ _ appLimited _ => appLimited
  | _ => false

/-- What a callback does to the rate. -/
theorem step_rate (c : BbrCapped quinn) (callback : Callback quinn) :
    (c.step callback).rate =
      match callback with
      | .onAck _ sent bytes appLimited _ =>
          c.rate.onAck sent bytes (appLimited || c.probe.isSome)
      | .onEndAcks now _ appLimited _ => (c.rate.onEndAcks now appLimited c.srtt).2
      | _ => c.rate := by
  cases callback with
  | onAck now sent bytes appLimited rtt =>
      simp only [step, onAck, recordAck]
      cases c.probe with
      | some probe => rfl
      | none =>
          simp only [takeMinimum]
          split
          · split_ifs <;> rfl
          · rfl
  | onEndAcks now inFlight appLimited largest =>
      have hupdate : ∀ c : BbrCapped quinn, (c.updateProbe now inFlight).rate = c.rate := by
        intro c
        rw [updateProbe]
        split
        · rfl
        · split
          · split_ifs <;> rfl
          · split_ifs <;> rfl
      simp only [step, onEndAcks, hupdate, updateRate]
      split <;> simp_all
  | onSent | onCongestionEvent | onMtuUpdate => rfl

/-- A moment that starts an interval leaves it without bytes and unmarked. -/
theorem step_rate_of_starts (h : startsInterval (c, callback) = true) :
    (c.step callback).rate.bytes = 0 ∧ (c.step callback).rate.appLimited = false := by
  cases callback with
  | onEndAcks now inFlight appLimited largest =>
      rw [step_rate]
      simp only [startsInterval, closes, Bool.or_eq_true] at h
      rcases c.rate.onEndAcks_cases now appLimited c.srtt with ⟨-, heq⟩ | ⟨hsome, heq⟩ | ⟨_, heq⟩
      · simp only [heq]
        exact ⟨rfl, rfl⟩
      · rw [heq] at h
        simp [Option.isSome_iff_ne_none.mp hsome] at h
      · simp only [heq]
        exact ⟨rfl, rfl⟩
  | onAck | onSent | onCongestionEvent | onMtuUpdate => cases h

/-- Any other moment marks the interval or not, and adds bytes only with an ACK. -/
theorem step_rate_of_not_starts (h : startsInterval (c, callback) = false) :
    (c.step callback).rate.appLimited = (c.rate.appLimited || marks (c, callback)) ∧
      (silent callback = true → (c.step callback).rate.bytes = c.rate.bytes) := by
  rw [step_rate]
  cases callback with
  | onAck now sent bytes appLimited rtt => exact ⟨rfl, nofun⟩
  | onEndAcks now inFlight appLimited largest =>
      simp only [startsInterval, closes, Bool.or_eq_false_iff] at h
      rcases c.rate.onEndAcks_cases now appLimited c.srtt with ⟨hnone, -⟩ | ⟨-, heq⟩ | ⟨_, heq⟩
      · simp [hnone] at h
      · simp only [heq]
        exact ⟨rfl, fun _ => rfl⟩
      · simp [heq] at h
  | onSent | onCongestionEvent | onMtuUpdate => simp [marks]

/-- **What the moments since an interval started tell of it.** -/
structure Counts (c : BbrCapped quinn) (history : List (BbrCapped quinn × Callback quinn)) :
    Prop where
  limited : c.rate.appLimited = history.any fun moment => !startsInterval moment && marks moment
  unacked : (∀ moment ∈ history, startsInterval moment = true ∨ silent moment.2 = true) →
    c.rate.bytes = 0

/-- A new controller has counted nothing. -/
theorem counts_build (inner : quinn.State) (mtu : ℕ) : Counts (build inner mtu) [] :=
  ⟨rfl, fun _ => rfl⟩

/-- A callback within an interval is counted to it. -/
theorem Counts.concat {history : List (BbrCapped quinn × Callback quinn)} (h : Counts c history)
    (hstarts : startsInterval (c, callback) = false) :
    Counts (c.step callback) (history ++ [(c, callback)]) := by
  obtain ⟨hlimited, hbytes⟩ := step_rate_of_not_starts hstarts
  constructor
  · rw [hlimited, h.limited, List.any_append]
    simp [hstarts]
  · intro hsilent
    have hlast := hsilent (c, callback) (by simp)
    rw [hbytes (by simpa [hstarts] using hlast)]
    exact h.unacked fun moment hmem => hsilent moment (List.mem_append_left _ hmem)

/-- The callback that starts an interval is counted first. -/
theorem counts_start (hstarts : startsInterval (c, callback) = true) :
    Counts (c.step callback) [(c, callback)] := by
  obtain ⟨hbytes, hlimited⟩ := step_rate_of_starts hstarts
  exact ⟨by simp [hlimited, hstarts], fun _ => hbytes⟩

/-- **Run lemma**: the interval counts what came since its start. -/
theorem counts_run (inner : quinn.State) (mtu : ℕ) (events : List (Callback quinn)) :
    Counts (run (build inner mtu) events) (sinceStart (build inner mtu) events) := by
  induction events using List.reverseRecOn with
  | nil => exact counts_build inner mtu
  | append_singleton events callback ih =>
      rw [run_concat, sinceStart, History.history_concat, History.sinceLast_concat]
      cases hstarts : startsInterval (run (build inner mtu) events, callback) with
      | true =>
          rw [if_pos (by exact hstarts)]
          exact counts_start hstarts
      | false =>
          rw [if_neg (by exact Bool.eq_false_iff.mp hstarts)]
          exact ih.concat hstarts

/-! ### Intervals within a probe -/

/-- **A callback closes an interval that started and closes while a probe is in progress.** -/
def ClosesWithinProbe (initial : BbrCapped quinn) (events : List (Callback quinn))
    (callback : Callback quinn) : Prop :=
  (closes (run initial events, callback)).isSome = true ∧
    (run initial events).probe.isSome = true ∧
    ∀ moment ∈ sinceStart initial events, moment.1.probe.isSome = true

/-- The callback does not lower the bandwidth estimate. -/
def KeepsEstimate (initial : BbrCapped quinn) (events : List (Callback quinn))
    (callback : Callback quinn) : Prop :=
  (run initial events).rate.max.getD 0 ≤ ((run initial events).step callback).rate.max.getD 0

/-- In the interval that the callback closes, nothing was acknowledged and no batch reported an
app-limited sender, and the slot written next holds more than any other. -/
def SilentOnPeak (initial : BbrCapped quinn) (events : List (Callback quinn))
    (callback : Callback quinn) : Prop :=
  (∀ moment ∈ sinceStart initial events,
    startsInterval moment = true ∨ silent moment.2 = true) ∧ silent callback = true ∧
    ∀ i, i ≠ (run initial events).rate.next →
      (run initial events).rate.samples i <
        (run initial events).rate.samples (run initial events).rate.next

/-- **In a probe, what is not silent marks the interval.** -/
theorem marks_eq_not_silent (h : c.probe.isSome = true) :
    marks (c, callback) = !silent callback := by
  cases callback with
  | onAck => simp [marks, silent, h]
  | onEndAcks => simp [marks, silent]
  | onSent | onCongestionEvent | onMtuUpdate => rfl

/-- The interval in progress is app-limited unless it was silent. -/
theorem appLimited_eq_false_iff (inner : quinn.State) (mtu : ℕ) {events : List (Callback quinn)}
    (hprobe : ∀ moment ∈ sinceStart (build inner mtu) events, moment.1.probe.isSome = true) :
    (run (build inner mtu) events).rate.appLimited = false ↔
      ∀ moment ∈ sinceStart (build inner mtu) events,
        startsInterval moment = true ∨ silent moment.2 = true := by
  rw [(counts_run inner mtu events).limited, List.any_eq_false]
  refine forall₂_congr fun moment hmem => ?_
  have hmarks : marks moment = !silent moment.2 := marks_eq_not_silent (hprobe moment hmem)
  rw [hmarks]
  cases startsInterval moment <;> cases silent moment.2 <;> decide

/-- The rate that an interval leaves when it closes. -/
theorem exists_close_of_closes (h : (closes (c, callback)).isSome = true) :
    ∃ appLimited elapsed, silent callback = !appLimited ∧
      (c.step callback).rate.samples = ((c.rate.limit appLimited).close
        ((c.rate.limit appLimited).measure elapsed)).samples := by
  cases callback with
  | onEndAcks now inFlight appLimited largest =>
      rw [step_rate]
      simp only [closes] at h
      rcases c.rate.onEndAcks_cases now appLimited c.srtt with ⟨-, heq⟩ | ⟨-, heq⟩ | ⟨elapsed, heq⟩
      · simp [heq] at h
      · simp [heq] at h
      · refine ⟨appLimited, elapsed, rfl, ?_⟩
        simp only [heq]
        rfl
  | onAck | onSent | onCongestionEvent | onMtuUpdate => cases h

/-- **An interval within a probe lowers the estimate exactly when it was silent and its zero
sample takes the slot that alone held the estimate.** -/
theorem keepsEstimate_iff (inner : quinn.State) (mtu : ℕ) {events : List (Callback quinn)}
    (h : ClosesWithinProbe (build inner mtu) events callback) :
    KeepsEstimate (build inner mtu) events callback ↔
      ¬SilentOnPeak (build inner mtu) events callback := by
  obtain ⟨hcloses, -, hprobe⟩ := h
  have hlimited := appLimited_eq_false_iff inner mtu hprobe
  have hunacked := (counts_run inner mtu events).unacked
  rw [KeepsEstimate, SilentOnPeak, ← hlimited]
  rw [← hlimited] at hunacked
  generalize run (build inner mtu) events = c at *
  obtain ⟨appLimited, elapsed, hsilent, hsamples⟩ := exists_close_of_closes hcloses
  have hpeak : (c.rate.limit appLimited).peak = c.rate.peak := rfl
  rw [DeliveryRate.max_congr hsamples, DeliveryRate.getD_max, DeliveryRate.getD_max, hsilent]
  cases hmarked : (c.rate.appLimited || appLimited) with
  | true =>
      have hkeeps : c.rate.peak ≤ ((c.rate.limit appLimited).close
          ((c.rate.limit appLimited).measure elapsed)).peak := by
        have hsample : ((c.rate.limit appLimited).measure elapsed).appLimited = true := hmarked
        rw [Measured.peak_close_of_appLimited hsample, hpeak]
        exact Nat.le_max_left _ _
      refine iff_of_true hkeeps ?_
      rintro ⟨hunmarked, hquiet, -⟩
      simp_all
  | false =>
      obtain ⟨hunmarked, rfl⟩ := Bool.or_eq_false_iff.mp hmarked
      have hzero : ((c.rate.limit false).measure elapsed).rate = 0 :=
        DeliveryRate.measure_rate_of_bytes (hunacked hunmarked) elapsed
      have hstored : ((c.rate.limit false).measure elapsed).stored = true := by
        simp [DeliveryRate.measure, DeliveryRate.limit, hunmarked]
      have hclose : ((c.rate.limit false).close ((c.rate.limit false).measure elapsed)).peak =
          ((c.rate.limit false).write 0).peak := by
        rw [DeliveryRate.close, if_pos hstored, DeliveryRate.store, hzero,
          if_neg (Nat.lt_irrefl 0)]
        rfl
      rw [hclose, ← hpeak, ← Nat.not_lt, DeliveryRate.peak_write_zero_lt_iff]
      simp only [hunmarked, Bool.not_false, true_and]
      rfl

/-- **When the probes of a run talk no estimate down**: every interval of it that starts and
closes within a probe keeps the estimate if and only if none of them is silent with its zero
sample taking the slot that alone holds the estimate. -/
theorem probe_keeps_estimate_iff (inner : quinn.State) (mtu : ℕ) (events : List (Callback quinn)) :
    (∀ before callback after, events = before ++ callback :: after →
      ClosesWithinProbe (build inner mtu) before callback →
      KeepsEstimate (build inner mtu) before callback) ↔
    ∀ before callback after, events = before ++ callback :: after →
      ClosesWithinProbe (build inner mtu) before callback →
      ¬SilentOnPeak (build inner mtu) before callback := by
  refine forall₃_congr fun before callback after => forall₂_congr fun _ hcloses => ?_
  exact keepsEstimate_iff inner mtu hcloses

end BbrCapped

/-- A controller with nothing in it, which takes the smoothed RTT from its callbacks. -/
def idleBbr : Bbr where
  State := Unit
  RttEstimator := ℕ
  get := id
  onSent _ _ _ _ := ()
  onAck _ _ _ _ _ _ := ()
  onEndAcks _ _ _ _ _ := ()
  onCongestionEvent _ _ _ _ _ := ()
  onMtuUpdate _ _ := ()
  window _ := rateMax
  initialWindow _ := 12000

/-- A probe that starts on the ACK of 12 000 bytes eleven seconds in, and nine intervals of it
without an ACK. -/
def silentProbe : List (Callback idleBbr) :=
  [.onAck 1000 0 1200 false (0 : ℕ), .onEndAcks 1000 100000 false none,
    .onAck 11000000000 10999000000 12000 false (0 : ℕ)] ++
  (List.range 10).map fun i => .onEndAcks (11000000000 + i * 1000) 100000 false none

namespace BbrCapped

/-- The tenth silent interval of a probe takes the slot of the only sample above zero, and the
estimate is gone. -/
theorem silent_probe_lowers_estimate :
    ClosesWithinProbe (build () 1200) silentProbe (.onEndAcks 11000010000 100000 false none) ∧
    ¬KeepsEstimate (build () 1200) silentProbe (.onEndAcks 11000010000 100000 false none) := by
  rw [ClosesWithinProbe, KeepsEstimate]
  decide +kernel

end BbrCapped

end Congestion

end Volto
