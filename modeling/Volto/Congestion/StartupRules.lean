import Mathlib.Data.List.TakeWhile
import Volto.Congestion.BbrCapped

/-!
# When the Startup Ends and Returns

The rules of the startup gain, over the whole sequence of sample intervals that closed. The code
keeps five numbers and no history; here the rules are read off the history, and the numbers are
what the code remembers of it.

* A running startup ends at an interval without growth that had a congestion event, and at the
  third one that was not app-limited.
* An ended one returns at the third interval in a row, app-limited ones aside, that raised an
  estimate from below half of the highest one.

The return starts the test again from the estimate it found, so it counts as a growth.
-/

namespace Volto

namespace Congestion

namespace Startup

/-- A sample interval that has closed: the estimate after it, and what fell in it. -/
structure Interval where
  estimate : ℕ
  appLimited : Bool := false
  congested : Bool := false
deriving DecidableEq, Repr

/-- The congestion event of an interval, if it had one, and then the test at its end. -/
def step (s : Startup) (i : Interval) : Startup :=
  (if i.congested then { s with congested := true } else s).onInterval i.estimate i.appLimited

/-- The startup of a connection after these intervals. -/
def run (intervals : List Interval) : Startup :=
  History.run step {} intervals

/-- One more interval is one more step. -/
@[simp] theorem run_concat (intervals : List Interval) (i : Interval) :
    run (intervals ++ [i]) = (run intervals).step i :=
  History.run_concat step {} intervals i

/-! ### The history -/

/-- The intervals of a run, each with those before it. -/
def moments (intervals : List Interval) : List (List Interval × Interval) :=
  History.history (fun before i => before ++ [i]) [] intervals

/-- One more interval is one more moment, behind all the others. -/
theorem moments_concat (intervals : List Interval) (i : Interval) :
    moments (intervals ++ [i]) = moments intervals ++ [(intervals, i)] := by
  have hbefore : History.run (fun before i => before ++ [i]) [] intervals = intervals := by
    induction intervals using List.reverseRecOn with
    | nil => rfl
    | append_singleton intervals i ih => rw [History.run_concat, ih]
  rw [moments, History.history_concat, hbefore]
  rfl

/-- The highest estimate of some intervals. -/
def highest (intervals : List Interval) : ℕ :=
  (intervals.map Interval.estimate).foldl max 0

/-- The estimate after the last interval that was not app-limited, and 0 before the first. -/
def lastEstimate (intervals : List Interval) : ℕ :=
  ((intervals.filter fun i => !i.appLimited).getLast?.map Interval.estimate).getD 0

/-- The last growth: the estimate it brought, and the intervals since. -/
structure Growth where
  value : ℕ := 0
  since : List Interval := []

/-- An interval that the test looks at and that raised the estimate to 1.25 times its value at the
last growth is a growth, and so is the return of the startup. -/
def Growth.next (g : Growth) (moment : List Interval × Interval) : Growth :=
  let grows := (run moment.1).ended = false ∧
    (moment.2.appLimited = false ∨ moment.2.congested = true) ∧
    5 * g.value ≤ 4 * moment.2.estimate
  let returns := (run moment.1).ended = true ∧ (run (moment.1 ++ [moment.2])).ended = false
  if grows ∨ returns then { value := moment.2.estimate }
  else { g with since := g.since ++ [moment.2] }

/-- The last growth of a run. -/
def growth (intervals : List Interval) : Growth :=
  (moments intervals).foldl Growth.next {}

/-- The interval was not app-limited and left the estimate below 1.25 times its value at the last
growth. -/
def Without (value : ℕ) (i : Interval) : Prop :=
  i.appLimited = false ∧ 4 * i.estimate < 5 * value

/-- Estimates are compared as numbers. -/
instance (value : ℕ) (i : Interval) : Decidable (Without value i) :=
  inferInstanceAs (Decidable (_ ∧ _))

/-- The intervals since the last growth that count against the startup. -/
def stalls (intervals : List Interval) : List Interval :=
  (growth intervals).since.filter fun i => Without (growth intervals).value i

/-- The moments since the startup ended, the latest first. -/
def sinceEnd (intervals : List Interval) : List (List Interval × Interval) :=
  (moments intervals).reverse.takeWhile fun moment => (run moment.1).ended

/-- Those of them that were not app-limited. -/
def found (intervals : List Interval) : List (List Interval × Interval) :=
  (sinceEnd intervals).filter fun moment => !moment.2.appLimited

/-- The interval raised the estimate from below half of the highest one so far. -/
def Rose (moment : List Interval × Interval) : Prop :=
  lastEstimate moment.1 < moment.2.estimate ∧
    2 * lastEstimate moment.1 < highest (moment.1 ++ [moment.2])

/-- Estimates are compared as numbers. -/
instance (moment : List Interval × Interval) : Decidable (Rose moment) :=
  inferInstanceAs (Decidable (_ ∧ _))

/-- The last three intervals since the end, app-limited ones aside, all did. -/
def ThreeRises (intervals : List Interval) : Prop :=
  ∃ third second first earlier, found intervals = third :: second :: first :: earlier ∧
    Rose third ∧ Rose second ∧ Rose first

/-- The highest estimate after one more interval. -/
theorem highest_concat (intervals : List Interval) (i : Interval) :
    highest (intervals ++ [i]) = max (highest intervals) i.estimate := by
  rw [highest, List.map_append, List.foldl_append]
  rfl

/-- An app-limited interval is not remembered as the last. -/
theorem lastEstimate_concat (intervals : List Interval) (i : Interval) :
    lastEstimate (intervals ++ [i]) =
      if i.appLimited then lastEstimate intervals else i.estimate := by
  rcases hlimited : i.appLimited with - | -
  · simp [lastEstimate, hlimited]
  · simp [lastEstimate, hlimited]

/-- The last growth after one more interval. -/
theorem growth_concat (intervals : List Interval) (i : Interval) :
    growth (intervals ++ [i]) = (growth intervals).next (intervals, i) := by
  rw [growth, moments_concat, List.foldl_append]
  rfl

/-- The moments since the end grow while the startup is over, and are forgotten when it runs. -/
theorem sinceEnd_concat (intervals : List Interval) (i : Interval) :
    sinceEnd (intervals ++ [i]) =
      if (run intervals).ended then (intervals, i) :: sinceEnd intervals else [] := by
  rw [sinceEnd, moments_concat, List.reverse_append, List.reverse_singleton, List.singleton_append,
    List.takeWhile_cons]
  rfl

/-! ### One interval -/

variable {s s' : Startup} {i : Interval} {intervals : List Interval}

/-- What an interval does, when no congestion event is left over from an earlier one. -/
inductive Steps (s : Startup) (i : Interval) : Startup → Prop
  | skipped (hrunning : s.ended = false) (hlimited : i.appLimited = true)
      (hcongested : i.congested = false) : Steps s i { s with peak := max s.peak i.estimate }
  | grew (hrunning : s.ended = false) (hseen : i.appLimited = false ∨ i.congested = true)
      (hgrew : 5 * s.grownTo ≤ 4 * i.estimate) :
      Steps s i { s with
        peak := max s.peak i.estimate
        last := if i.appLimited then s.last else i.estimate
        grownTo := i.estimate
        flat := 0 }
  | lost (hrunning : s.ended = false) (hcongested : i.congested = true)
      (hbelow : 4 * i.estimate < 5 * s.grownTo) :
      Steps s i { s with
        peak := max s.peak i.estimate
        last := if i.appLimited then s.last else i.estimate
        ended := true }
  | stalled (hrunning : s.ended = false) (hlimited : i.appLimited = false)
      (hcongested : i.congested = false) (hbelow : 4 * i.estimate < 5 * s.grownTo) :
      Steps s i { s with
        peak := max s.peak i.estimate
        last := i.estimate
        flat := s.flat + 1
        ended := decide (3 ≤ s.flat + 1) }
  | ignored (hended : s.ended = true) (hlimited : i.appLimited = true) :
      Steps s i { s with peak := max s.peak i.estimate }
  | fell (hended : s.ended = true) (hlimited : i.appLimited = false)
      (hrose : ¬(s.last < i.estimate ∧ 2 * s.last < max s.peak i.estimate)) :
      Steps s i { s with peak := max s.peak i.estimate, last := i.estimate, rises := 0 }
  | rose (hended : s.ended = true) (hlimited : i.appLimited = false)
      (hrose : s.last < i.estimate ∧ 2 * s.last < max s.peak i.estimate) (hrises : s.rises < 2) :
      Steps s i { s with peak := max s.peak i.estimate, last := i.estimate, rises := s.rises + 1 }
  | returned (hended : s.ended = true) (hlimited : i.appLimited = false)
      (hrose : s.last < i.estimate ∧ 2 * s.last < max s.peak i.estimate) (hrises : 2 ≤ s.rises) :
      Steps s i { grownTo := i.estimate, peak := max s.peak i.estimate, last := i.estimate }

/-- Below half of the peak, as the code computes it in percent. -/
theorem fallen_iff (last peak : ℕ) : last * 100 < peak * fallenPercent ↔ 2 * last < peak := by
  rw [fallenPercent]
  omega

/-- 1.25 times the value at the last growth, as the code computes it in percent. -/
theorem grown_iff (grownTo estimate : ℕ) :
    grownTo * growthPercent ≤ estimate * 100 ↔ 5 * grownTo ≤ 4 * estimate := by
  rw [growthPercent]
  omega

/-- The step of a startup that has ended. -/
theorem steps_of_ended (hended : s.ended = true) (h : s.congested = false) (i : Interval) :
    Steps s i (s.step i) := by
  obtain ⟨ended, grownTo, flat, congested, peak, last, rises⟩ := s
  obtain rfl : ended = true := hended
  obtain rfl : congested = false := h
  obtain ⟨estimate, _ | _, congested⟩ := i
  · have hstep : step ⟨true, grownTo, flat, false, peak, last, rises⟩ ⟨estimate, false, congested⟩ =
        countRise ⟨true, grownTo, flat, false, max peak estimate, last, rises⟩ estimate := by
      rcases congested <;> rfl
    rw [hstep, countRise]
    simp only [fallen_iff, risesToRestart]
    by_cases hrose : last < estimate ∧ 2 * last < max peak estimate
    · rw [if_pos hrose.symm]
      by_cases hrises : 2 ≤ rises
      · rw [if_pos (by omega)]
        exact .returned rfl rfl hrose hrises
      · rw [if_neg (by omega)]
        exact .rose rfl rfl hrose (not_le.mp hrises)
    · have hfell : ¬(2 * last < max peak estimate ∧ last < estimate) := fun h => hrose h.symm
      rw [if_neg hfell, if_neg (by omega)]
      exact .fell rfl rfl hrose
  · rcases congested <;> exact .ignored rfl rfl

/-- The step of a running startup. -/
theorem steps_of_running (hrunning : s.ended = false) (h : s.congested = false) (i : Interval) :
    Steps s i (s.step i) := by
  obtain ⟨ended, grownTo, flat, congested, peak, last, rises⟩ := s
  obtain rfl : ended = false := hrunning
  obtain rfl : congested = false := h
  obtain ⟨estimate, appLimited, congested⟩ := i
  by_cases hskipped : appLimited = true ∧ congested = false
  · obtain ⟨rfl, rfl⟩ := hskipped
    exact .skipped rfl rfl rfl
  have hseen : appLimited = false ∨ congested = true := by
    rcases appLimited <;> rcases congested <;> simp_all
  have hstep : step ⟨false, grownTo, flat, false, peak, last, rises⟩
        ⟨estimate, appLimited, congested⟩ =
      if 5 * grownTo ≤ 4 * estimate then
        ⟨false, estimate, 0, false, max peak estimate, if appLimited then last else estimate, rises⟩
      else if congested then
        ⟨true, grownTo, flat, false, max peak estimate, if appLimited then last else estimate,
          rises⟩
      else ⟨decide (3 ≤ flat + 1), grownTo, flat + 1, false, max peak estimate,
        if appLimited then last else estimate, rises⟩ := by
    rw [← ite_congr (propext (grown_iff grownTo estimate)) (fun _ => rfl) (fun _ => rfl)]
    rcases appLimited <;> rcases congested <;> first | rfl | simp at hskipped
  rw [hstep]
  by_cases hgrew : 5 * grownTo ≤ 4 * estimate
  · rw [if_pos hgrew]
    exact .grew rfl hseen hgrew
  · rw [if_neg hgrew]
    rcases hseen with rfl | rfl
    · rcases congested
      · exact .stalled rfl rfl rfl (not_le.mp hgrew)
      · exact .lost rfl rfl (not_le.mp hgrew)
    · exact .lost rfl rfl (not_le.mp hgrew)

/-- **An interval does one of these things.** -/
theorem steps (h : s.congested = false) (i : Interval) : Steps s i (s.step i) := by
  rcases hended : s.ended with - | -
  · exact steps_of_running hended h i
  · exact steps_of_ended hended h i

/-! ### What the numbers remember -/

/-- An interval that the test looks at and that grew is the last growth. -/
theorem growth_concat_of_grew (hrunning : (run intervals).ended = false)
    (hseen : i.appLimited = false ∨ i.congested = true)
    (hgrew : 5 * (growth intervals).value ≤ 4 * i.estimate) :
    growth (intervals ++ [i]) = { value := i.estimate } := by
  rw [growth_concat]
  exact if_pos (.inl ⟨hrunning, hseen, hgrew⟩)

/-- The return of the startup is the last growth. -/
theorem growth_concat_of_returned (hended : (run intervals).ended = true)
    (hreturned : (run (intervals ++ [i])).ended = false) :
    growth (intervals ++ [i]) = { value := i.estimate } := by
  rw [growth_concat]
  exact if_pos (.inr ⟨hended, hreturned⟩)

/-- An interval without growth stands behind the last one. -/
theorem growth_concat_of_running (hrunning : (run intervals).ended = false)
    (hnot : (i.appLimited = false ∨ i.congested = true) →
      4 * i.estimate < 5 * (growth intervals).value) :
    growth (intervals ++ [i]) =
      { growth intervals with since := (growth intervals).since ++ [i] } := by
  rw [growth_concat]
  refine if_neg ?_
  rintro (⟨-, hseen, hgrew⟩ | ⟨hended, -⟩)
  · exact absurd hgrew (not_le.mpr (hnot hseen))
  · exact absurd (hrunning.symm.trans hended) Bool.false_ne_true

/-- While the startup stays ended nothing grows. -/
theorem growth_concat_of_ended (hended : (run intervals).ended = true)
    (hstill : (run (intervals ++ [i])).ended = true) :
    growth (intervals ++ [i]) =
      { growth intervals with since := (growth intervals).since ++ [i] } := by
  rw [growth_concat]
  refine if_neg ?_
  rintro (⟨hrunning, -⟩ | ⟨-, hreturned⟩)
  · exact absurd (hrunning.symm.trans hended) Bool.false_ne_true
  · exact absurd (hreturned.symm.trans hstill) Bool.false_ne_true

/-- Nothing counts against the startup right after a growth. -/
theorem stalls_of_value {value : ℕ} (h : growth intervals = { value }) : stalls intervals = [] := by
  rw [stalls, h]
  rfl

/-- One more interval counts against the startup if it was without growth. -/
theorem length_stalls_concat
    (h : growth (intervals ++ [i]) =
      { growth intervals with since := (growth intervals).since ++ [i] }) :
    (stalls (intervals ++ [i])).length =
      (stalls intervals).length + if Without (growth intervals).value i then 1 else 0 := by
  rw [stalls, h, List.filter_append, List.length_append]
  by_cases hwithout : Without (growth intervals).value i
  · simp [stalls, hwithout]
  · simp [stalls, hwithout]

/-- How many of the last intervals since the end, app-limited ones aside, rose in a row. -/
def streak (intervals : List Interval) : ℕ :=
  ((found intervals).takeWhile fun moment => Rose moment).length

/-- A running startup has found nothing since its end. -/
theorem found_concat_of_running (hrunning : (run intervals).ended = false) :
    found (intervals ++ [i]) = [] := by
  rw [found, sinceEnd_concat, hrunning]
  rfl

/-- An app-limited interval is not looked at. -/
theorem found_concat_of_limited (hended : (run intervals).ended = true)
    (hlimited : i.appLimited = true) : found (intervals ++ [i]) = found intervals := by
  rw [found, sinceEnd_concat, if_pos hended, List.filter_cons_of_neg (by simp [hlimited])]
  rfl

/-- Any other interval of an ended startup is. -/
theorem found_concat (hended : (run intervals).ended = true) (hlimited : i.appLimited = false) :
    found (intervals ++ [i]) = (intervals, i) :: found intervals := by
  rw [found, sinceEnd_concat, if_pos hended, List.filter_cons_of_pos (by simp [hlimited])]
  rfl

/-- The streak grows with a rise and is broken by anything else. -/
theorem streak_concat (hended : (run intervals).ended = true) (hlimited : i.appLimited = false) :
    streak (intervals ++ [i]) = if Rose (intervals, i) then streak intervals + 1 else 0 := by
  rw [streak, found_concat hended hlimited, List.takeWhile_cons]
  by_cases hrose : Rose (intervals, i)
  · simp [hrose, streak]
  · simp [hrose]

/-- Three rises in a row are a streak of three. -/
theorem threeRises_iff (intervals : List Interval) :
    ThreeRises intervals ↔ 3 ≤ streak intervals := by
  rw [ThreeRises, streak]
  constructor
  · rintro ⟨third, second, first, earlier, hfound, h₃, h₂, h₁⟩
    simp [hfound, h₃, h₂, h₁]
  · intro h
    rcases hstreak : (found intervals).takeWhile (fun moment => Rose moment) with
      - | ⟨third, - | ⟨second, - | ⟨first, rest⟩⟩⟩
    all_goals rw [hstreak] at h
    · exact absurd h (by decide)
    · exact absurd h (by simp)
    · exact absurd h (by simp)
    · have hrose : ∀ moment ∈ third :: second :: first :: rest, Rose moment := by
        intro moment hmem
        rw [← hstreak] at hmem
        simpa using List.mem_takeWhile_imp hmem
      refine ⟨third, second, first, rest ++ (found intervals).dropWhile (fun m => Rose m), ?_,
        hrose third (by simp), hrose second (by simp), hrose first (by simp)⟩
      conv_lhs => rw [← List.takeWhile_append_dropWhile (p := fun moment => Rose moment)
        (l := found intervals), hstreak]
      rfl

/-- **What the numbers of the code remember of the history.** -/
structure Remembers (intervals : List Interval) (s : Startup) : Prop where
  congested : s.congested = false
  grownTo : s.grownTo = (growth intervals).value
  peak : s.peak = highest intervals
  last : s.last = lastEstimate intervals
  flat : s.ended = false → s.flat = (stalls intervals).length
  flat_lt : s.ended = false → s.flat < 3
  flat_le : s.flat ≤ 3
  rises : s.ended = true → s.rises = streak intervals
  rises_eq_zero : s.ended = false → s.rises = 0
  rises_lt : s.rises < 3

/-- A new startup remembers an empty history. -/
theorem remembers_nil : Remembers [] {} where
  congested := rfl
  grownTo := rfl
  peak := rfl
  last := rfl
  flat _ := rfl
  flat_lt _ := by decide
  flat_le := by decide
  rises h := by cases h
  rises_eq_zero _ := rfl
  rises_lt := by decide

/-- Every interval may raise the peak. -/
theorem Steps.peak (h : Steps s i s') : s'.peak = max s.peak i.estimate := by
  cases h <;> rfl

/-- Only intervals that were not app-limited are remembered as the last. -/
theorem Steps.last (h : Steps s i s') :
    s'.last = if i.appLimited then s.last else i.estimate := by
  cases h <;> simp [*]

/-- The mark of a congestion event does not outlive its interval. -/
theorem Steps.congested (h : Steps s i s') (hs : s.congested = false) : s'.congested = false := by
  cases h <;> first | exact hs | rfl

variable (h : Remembers intervals (run intervals)) (hs : Steps (run intervals) i s')
  (hrun : run (intervals ++ [i]) = s')

include h hs hrun

/-- The code's growth is the last one of the history, after one more interval. -/
theorem Remembers.grownTo_concat : s'.grownTo = (growth (intervals ++ [i])).value := by
  cases hs with
  | skipped hrunning hlimited hcongested =>
      rw [growth_concat_of_running hrunning (by simp [hlimited, hcongested])]
      exact h.grownTo
  | grew hrunning hseen hgrew =>
      rw [growth_concat_of_grew hrunning hseen (h.grownTo ▸ hgrew)]
  | lost hrunning hcongested hbelow =>
      rw [growth_concat_of_running hrunning fun _ => h.grownTo ▸ hbelow]
      exact h.grownTo
  | stalled hrunning hlimited hcongested hbelow =>
      rw [growth_concat_of_running hrunning fun _ => h.grownTo ▸ hbelow]
      exact h.grownTo
  | ignored hended hlimited =>
      rw [growth_concat_of_ended hended (by rw [hrun]; exact hended)]
      exact h.grownTo
  | fell hended hlimited hrose =>
      rw [growth_concat_of_ended hended (by rw [hrun]; exact hended)]
      exact h.grownTo
  | rose hended hlimited hrose hrises =>
      rw [growth_concat_of_ended hended (by rw [hrun]; exact hended)]
      exact h.grownTo
  | returned hended hlimited hrose hrises =>
      rw [growth_concat_of_returned hended (by rw [hrun])]

/-- The code's count of stalls is that of the history, while the startup runs on. -/
theorem Remembers.flat_concat (hstill : s'.ended = false) :
    s'.flat = (stalls (intervals ++ [i])).length := by
  cases hs with
  | skipped hrunning hlimited hcongested =>
      have hnot : (i.appLimited = false ∨ i.congested = true) →
          4 * i.estimate < 5 * (growth intervals).value := by simp [hlimited, hcongested]
      have hgrowth := growth_concat_of_running hrunning hnot
      have hwithout : ¬Without (growth intervals).value i := by simp [Without, hlimited]
      rw [length_stalls_concat hgrowth, if_neg hwithout]
      exact h.flat hrunning
  | grew hrunning hseen hgrew =>
      rw [stalls_of_value (growth_concat_of_grew hrunning hseen (h.grownTo ▸ hgrew))]
      rfl
  | lost => cases hstill
  | stalled hrunning hlimited hcongested hbelow =>
      have hbelow' : 4 * i.estimate < 5 * (growth intervals).value := h.grownTo ▸ hbelow
      rw [length_stalls_concat (growth_concat_of_running hrunning fun _ => hbelow'),
        if_pos ⟨hlimited, hbelow'⟩, ← h.flat hrunning]
  | ignored hended => cases hended.symm.trans hstill
  | fell hended => cases hended.symm.trans hstill
  | rose hended => cases hended.symm.trans hstill
  | returned hended =>
      rw [stalls_of_value (growth_concat_of_returned hended (by rw [hrun]))]
      rfl

/-- The code's count of rises is the streak, while the startup stays ended. -/
theorem Remembers.rises_concat (hended' : s'.ended = true) :
    s'.rises = streak (intervals ++ [i]) := by
  have hrose_iff : Rose (intervals, i) ↔ (run intervals).last < i.estimate ∧
      2 * (run intervals).last < max (run intervals).peak i.estimate := by
    rw [Rose, h.last, h.peak, highest_concat]
  cases hs with
  | skipped hrunning => cases hrunning.symm.trans hended'
  | grew hrunning => cases hrunning.symm.trans hended'
  | lost hrunning =>
      rw [streak, found_concat_of_running hrunning]
      exact h.rises_eq_zero hrunning
  | stalled hrunning =>
      rw [streak, found_concat_of_running hrunning]
      exact h.rises_eq_zero hrunning
  | ignored hended hlimited =>
      rw [streak, found_concat_of_limited hended hlimited]
      exact h.rises hended
  | fell hended hlimited hrose =>
      rw [streak_concat hended hlimited, if_neg (hrose_iff.not.mpr hrose)]
  | rose hended hlimited hrose =>
      rw [streak_concat hended hlimited, if_pos (hrose_iff.mpr hrose), ← h.rises hended]
  | returned => cases hended'

/-- **One more interval is remembered.** -/
theorem Remembers.concat : Remembers (intervals ++ [i]) s' where
  congested := hs.congested h.congested
  grownTo := h.grownTo_concat hs hrun
  peak := by rw [hs.peak, h.peak, highest_concat]
  last := by rw [hs.last, h.last, lastEstimate_concat]
  flat := h.flat_concat hs hrun
  flat_lt hstill := by
    cases hs with
    | skipped hrunning => exact h.flat_lt hrunning
    | grew => exact Nat.zero_lt_succ 2
    | lost => cases hstill
    | stalled => exact not_le.mp (of_decide_eq_false hstill)
    | ignored hended => cases hended.symm.trans hstill
    | fell hended => cases hended.symm.trans hstill
    | rose hended => cases hended.symm.trans hstill
    | returned => exact Nat.zero_lt_succ 2
  flat_le := by
    cases hs with
    | grew => exact Nat.zero_le 3
    | stalled hrunning => exact h.flat_lt hrunning
    | returned => exact Nat.zero_le 3
    | _ => exact h.flat_le
  rises := h.rises_concat hs hrun
  rises_eq_zero hstill := by
    cases hs with
    | skipped hrunning => exact h.rises_eq_zero hrunning
    | grew hrunning => exact h.rises_eq_zero hrunning
    | lost => cases hstill
    | stalled hrunning => exact h.rises_eq_zero hrunning
    | ignored hended => cases hended.symm.trans hstill
    | fell hended => cases hended.symm.trans hstill
    | rose hended => cases hended.symm.trans hstill
    | returned => rfl
  rises_lt := by
    cases hs with
    | fell => exact Nat.zero_lt_succ 2
    | rose _ _ _ hrises => exact Nat.succ_lt_succ hrises
    | returned => exact Nat.zero_lt_succ 2
    | _ => exact h.rises_lt

omit h hs hrun

/-- **The numbers remember every run.** -/
theorem remembers_run (intervals : List Interval) : Remembers intervals (run intervals) := by
  induction intervals using List.reverseRecOn with
  | nil => exact remembers_nil
  | append_singleton intervals i ih =>
      refine ih.concat ?_ rfl
      rw [run_concat]
      exact steps ih.congested i

/-! ### The rules -/

/-- **The rules of the startup**, at the interval `i` after any others. -/
structure Rules (intervals : List Interval) (i : Interval) : Prop where
  /-- A running startup ends without growth, at a congestion event or the third time. -/
  ends : (run intervals).ended = false →
    ((run (intervals ++ [i])).ended = true ↔
      4 * i.estimate < 5 * (growth intervals).value ∧
        (i.congested = true ∨ i.appLimited = false ∧ (stalls intervals).length = 2))
  /-- An ended one returns after three rises in a row. -/
  returns : (run intervals).ended = true →
    ((run (intervals ++ [i])).ended = false ↔ ThreeRises (intervals ++ [i]))
  /-- An app-limited interval without congestion changes neither count. -/
  skips : i.appLimited = true → i.congested = false →
    (run (intervals ++ [i])).flat = (run intervals).flat ∧
      (run (intervals ++ [i])).rises = (run intervals).rises
  flat_le : (run (intervals ++ [i])).flat ≤ 3
  /-- Below 3 between intervals: `count_rise` raises it to 3 at most. -/
  rises_lt : (run (intervals ++ [i])).rises < 3
  grownTo_le : (run (intervals ++ [i])).grownTo ≤ (run (intervals ++ [i])).peak
  last_le : (run (intervals ++ [i])).last ≤ (run (intervals ++ [i])).peak

/-- **When a running startup ends.** -/
theorem Remembers.ends_iff (h : Remembers intervals (run intervals))
    (hs : Steps (run intervals) i s') (hrunning : (run intervals).ended = false) :
    s'.ended = true ↔ 4 * i.estimate < 5 * (growth intervals).value ∧
      (i.congested = true ∨ i.appLimited = false ∧ (stalls intervals).length = 2) := by
  rw [← h.grownTo, ← h.flat hrunning]
  have hflat := h.flat_lt hrunning
  cases hs with
  | skipped _ hlimited hcongested => simp [hrunning, hlimited, hcongested]
  | grew _ _ hgrew => simp [hrunning, hgrew]
  | lost _ hcongested hbelow => simp [hcongested, hbelow]
  | stalled _ hlimited hcongested hbelow =>
      simp only [hlimited, hcongested, hbelow, decide_eq_true_eq, true_and, Bool.false_eq_true,
        false_or]
      omega
  | ignored hended => cases hrunning.symm.trans hended
  | fell hended => cases hrunning.symm.trans hended
  | rose hended => cases hrunning.symm.trans hended
  | returned hended => cases hrunning.symm.trans hended

/-- **When an ended startup returns.** -/
theorem Remembers.returns_iff (h : Remembers intervals (run intervals))
    (hs : Steps (run intervals) i s') (hrun : run (intervals ++ [i]) = s')
    (hended : (run intervals).ended = true) :
    s'.ended = false ↔ ThreeRises (intervals ++ [i]) := by
  rw [threeRises_iff]
  constructor
  · intro hreturned
    cases hs with
    | returned _ hlimited hrose hrises =>
        have hrose' : Rose (intervals, i) := by rwa [Rose, ← h.last, highest_concat, ← h.peak]
        rw [streak_concat hended hlimited, if_pos hrose', ← h.rises hended]
        exact Nat.succ_le_succ hrises
    | skipped hrunning => cases hrunning.symm.trans hended
    | grew hrunning => cases hrunning.symm.trans hended
    | lost => cases hreturned
    | stalled hrunning => cases hrunning.symm.trans hended
    | ignored => cases hended.symm.trans hreturned
    | fell => cases hended.symm.trans hreturned
    | rose => cases hended.symm.trans hreturned
  · intro hthree
    by_contra hstill
    have h' := h.concat hs hrun
    rw [← h'.rises (Bool.eq_true_of_not_eq_false hstill)] at hthree
    exact absurd h'.rises_lt (not_lt.mpr hthree)

/-- An app-limited interval without a congestion event leaves both counts as they are. -/
theorem Steps.skips (hs : Steps s i s') (hlimited : i.appLimited = true)
    (hcongested : i.congested = false) : s'.flat = s.flat ∧ s'.rises = s.rises := by
  cases hs with
  | skipped => exact ⟨rfl, rfl⟩
  | ignored => exact ⟨rfl, rfl⟩
  | grew _ hseen => simp [hlimited, hcongested] at hseen
  | lost _ hcongested' => cases hcongested.symm.trans hcongested'
  | stalled _ hlimited' => cases hlimited.symm.trans hlimited'
  | fell _ hlimited' => cases hlimited.symm.trans hlimited'
  | rose _ hlimited' => cases hlimited.symm.trans hlimited'
  | returned _ hlimited' => cases hlimited.symm.trans hlimited'

/-- Nothing that is remembered is above the peak. -/
theorem Steps.le_peak (hs : Steps s i s') (h : s.grownTo ≤ s.peak ∧ s.last ≤ s.peak) :
    s'.grownTo ≤ s'.peak ∧ s'.last ≤ s'.peak := by
  have hlast : s'.last ≤ s'.peak := by
    rw [hs.last, hs.peak]
    split
    · exact h.2.trans (le_max_left _ _)
    · exact le_max_right _ _
  refine ⟨?_, hlast⟩
  cases hs with
  | grew => exact le_max_right _ _
  | returned => exact le_max_right _ _
  | _ => exact h.1.trans (le_max_left _ _)

/-- So it is after every run. -/
theorem le_peak_run (intervals : List Interval) :
    (run intervals).grownTo ≤ (run intervals).peak ∧
      (run intervals).last ≤ (run intervals).peak := by
  induction intervals using List.reverseRecOn with
  | nil => exact ⟨le_rfl, le_rfl⟩
  | append_singleton intervals i ih =>
      rw [run_concat]
      exact (steps (remembers_run intervals).congested i).le_peak ih

/-- **The startup ends and returns by its rules**, in every sequence of sample intervals. -/
theorem startup_rules (intervals : List Interval) (i : Interval) : Rules intervals i := by
  have h := remembers_run intervals
  have h' := remembers_run (intervals ++ [i])
  have hs : Steps (run intervals) i (run (intervals ++ [i])) := by
    rw [run_concat]
    exact steps h.congested i
  exact
    { ends := h.ends_iff hs
      returns := h.returns_iff hs rfl
      skips := hs.skips
      flat_le := h'.flat_le
      rises_lt := h'.rises_lt
      grownTo_le := (le_peak_run _).1
      last_le := (le_peak_run _).2 }

/-- Four equal samples end it, and three rises from below half of them bring it back. -/
example : (run [⟨100, false, false⟩, ⟨100, false, false⟩, ⟨100, false, false⟩, ⟨100, false, false⟩,
    ⟨10, false, false⟩, ⟨20, false, false⟩, ⟨30, false, false⟩]).ended = true ∧
    (run [⟨100, false, false⟩, ⟨100, false, false⟩, ⟨100, false, false⟩, ⟨100, false, false⟩,
      ⟨10, false, false⟩, ⟨20, false, false⟩, ⟨30, false, false⟩, ⟨40, false, false⟩]).ended =
        false := by
  decide

end Startup

end Congestion

end Volto
