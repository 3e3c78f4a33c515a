import Mathlib.Data.Finset.Lattice.Fold
import Mathlib.Data.Fintype.Basic
import Mathlib.Order.Bounds.Basic
import Mathlib.Order.Lattice.Nat
import Volto.Lib.Ring
import Volto.Lib.Saturating

/-!
# The Delivery Rate

`DeliveryRate` of `congestion.rs`: the bytes acknowledged in a sample interval over the time it
took, and the largest of the samples stored. The filter is a ring of ten slots. A sample takes
the slot of the one stored ten stores before it, and a sample above zero first clears every slot
that was stored ten intervals before or more. Ages are counted in intervals and slots in stores,
and not every interval stores its sample, so the two differ; what makes the ring a window all
the same is that ten stores are never less than ten intervals (`length_stores_le`).

Instants and durations are numbers of nanoseconds, and an instant is never before its clock.

## Main results

* `Inv.run`: what the slots hold, in terms of the intervals closed so far.
* `filter_window`: the estimate is a windowed maximum that forgets only on purpose.
-/

namespace Volto

namespace Congestion

/-- `SAMPLES`: how many stored samples the bandwidth estimate is taken from, and after how many
intervals one can leave it. -/
def samplesKept : ℕ := 10

/-- The filter has a slot to start in. -/
instance : NeZero samplesKept :=
  ⟨by decide⟩

/-- The largest `u64`. -/
def rateMax : ℕ := 2 ^ 64 - 1

/-- The number of values of a `usize`. -/
def usizeCount : ℕ := 2 ^ 64

/-- `Duration::as_micros`. -/
def asMicros (duration : ℕ) : ℕ :=
  duration / 1000

/-- One closed sample interval. -/
structure Sample where
  /-- The delivery rate in bytes per second. -/
  rate : ℕ
  appLimited : Bool
  /-- Whether the sample went into the filter. -/
  stored : Bool
  ackElapsed : ℕ
  sendElapsed : ℕ
deriving DecidableEq, Repr

/-- The delivery rate, and the largest of the stored samples. -/
structure DeliveryRate where
  /-- When the current interval started; `none` until the first ACK batch. -/
  started : Option ℕ
  /-- Bytes acknowledged since then. -/
  bytes : ℕ
  /-- Whether any ACK in the current interval found the sender app-limited. -/
  appLimited : Bool
  /-- The latest send time of any packet acknowledged so far. -/
  sent : Option ℕ
  /-- `sent` as it was when the current interval started. -/
  sentAtStart : Option ℕ
  samples : Fin samplesKept → ℕ
  /-- The interval count when each sample was stored. -/
  storedAt : Fin samplesKept → ℕ
  next : Fin samplesKept
  /-- How many intervals have closed. -/
  intervals : ℕ

namespace DeliveryRate

/-- A rate of which nothing has been measured. -/
def default : DeliveryRate where
  started := none
  bytes := 0
  appLimited := false
  sent := none
  sentAtStart := none
  samples _ := 0
  storedAt _ := 0
  next := 0
  intervals := 0

variable (d : DeliveryRate)

/-- Counts an ACK; the latest send time only moves forward. -/
def onAck (sent bytes : ℕ) (appLimited : Bool) : DeliveryRate :=
  { d with
    bytes := Saturating.add rateMax d.bytes bytes
    appLimited := d.appLimited || appLimited
    sent := some (d.sent.elim sent (max sent)) }

/-- Starts an interval. -/
def restart (now : ℕ) : DeliveryRate :=
  { d with started := some now, sentAtStart := d.sent, bytes := 0, appLimited := false }

/-- The largest slot. -/
def peak : ℕ :=
  Finset.univ.sup d.samples

/-- The bandwidth estimate in bytes per second; `none` before any sample above zero. -/
def max : Option ℕ :=
  if 0 < d.peak then some d.peak else none

/-- How many intervals ago a slot was stored, on a counter that wraps. -/
def age (slot : Fin samplesKept) : ℕ :=
  (d.intervals + usizeCount - d.storedAt slot) % usizeCount

/-- Clears what was stored `SAMPLES` intervals ago or more. -/
def expire : DeliveryRate :=
  { d with samples := fun slot => if samplesKept ≤ d.age slot then 0 else d.samples slot }

/-- Writes a sample to the next slot. -/
def write (sample : ℕ) : DeliveryRate :=
  { d with
    samples := Function.update d.samples d.next sample
    storedAt := Function.update d.storedAt d.next d.intervals
    next := Fin.ofNat samplesKept (d.next.val + 1) }

/-- Stores a sample; a zero sample expires nothing. -/
def store (sample : ℕ) : DeliveryRate :=
  if 0 < sample then d.expire.write sample else d.write sample

/-- The send interval of the acknowledged packets; zero when unknown. -/
def sendElapsed : ℕ :=
  match d.sentAtStart, d.sent with
  | some first, some last => last - first
  | _, _ => 0

/-- The sample of an interval of this length. -/
def measure (elapsed : ℕ) : Sample :=
  let rate := min (d.bytes * 1000000 / Nat.max (asMicros (Nat.max elapsed d.sendElapsed)) 1) rateMax
  { rate
    appLimited := d.appLimited
    stored := !d.appLimited || decide (d.max.getD 0 < rate)
    ackElapsed := elapsed
    sendElapsed := d.sendElapsed }

/-- One more interval has closed. -/
def count : DeliveryRate :=
  { d with intervals := (d.intervals + 1) % usizeCount }

/-- The interval closes with this sample. -/
def close (sample : Sample) : DeliveryRate :=
  if sample.stored then (d.store sample.rate).count else d.count

/-- Marks the interval, if an ACK batch ended on an app-limited sender. -/
def limit (appLimited : Bool) : DeliveryRate :=
  { d with appLimited := d.appLimited || appLimited }

/-- Ends the current interval if it has lasted `round`, and then returns its sample. -/
def onEndAcks (now : ℕ) (appLimited : Bool) (round : ℕ) : Option Sample × DeliveryRate :=
  let d := d.limit appLimited
  match d.started with
  | none => (none, d.restart now)
  | some started =>
      let elapsed := now - started
      if elapsed = 0 ∨ elapsed < round then (none, d)
      else (some (d.measure elapsed), (d.close (d.measure elapsed)).restart now)

/-- A call. -/
inductive Call
  | onAck (sent bytes : ℕ) (appLimited : Bool)
  | onEndAcks (now : ℕ) (appLimited : Bool) (round : ℕ)
deriving DecidableEq, Repr

/-- What a call returns and leaves. -/
def call : Call → Option Sample × DeliveryRate
  | .onAck sent bytes appLimited => (none, d.onAck sent bytes appLimited)
  | .onEndAcks now appLimited round => d.onEndAcks now appLimited round

end DeliveryRate

/-- A rate and the intervals it has closed, in order: the number of an interval is its place. -/
structure Measured where
  closed : List Sample
  rate : DeliveryRate

namespace Measured

/-- One call. -/
def step (m : Measured) (c : DeliveryRate.Call) : Measured :=
  ⟨m.closed ++ (m.rate.call c).1.toList, (m.rate.call c).2⟩

/-- A sequence of calls on a new rate. -/
def run (calls : List DeliveryRate.Call) : Measured :=
  calls.foldl step ⟨[], .default⟩

end Measured

/-- The numbers and rates of the intervals whose samples were stored. -/
def stores (closed : List Sample) : List (ℕ × ℕ) :=
  closed.zipIdx.filterMap fun (sample, number) =>
    if sample.stored then some (number, sample.rate) else none

/-! ### The stores -/

/-- Closing one more interval adds at most its own store, under its own number. -/
theorem stores_concat (closed : List Sample) (sample : Sample) :
    stores (closed ++ [sample]) =
      stores closed ++ if sample.stored then [(closed.length, sample.rate)] else [] := by
  rw [stores, stores, List.zipIdx_append, List.filterMap_append]
  congr 1
  cases hstored : sample.stored <;> simp [hstored]

/-- **A store is of an interval, and ten stores are never less than ten intervals.** -/
theorem length_stores_le {closed : List Sample} {j number rate : ℕ}
    (h : (stores closed)[j]? = some (number, rate)) :
    (∃ sample, closed[number]? = some sample ∧ sample.stored = true ∧ sample.rate = rate) ∧
      (stores closed).length + number ≤ closed.length + j := by
  induction closed using List.reverseRecOn generalizing j with
  | nil => cases h
  | append_singleton closed sample ih =>
      have hlength : (closed ++ [sample]).length = closed.length + 1 := List.length_append
      rw [stores_concat] at h ⊢
      cases hstored : sample.stored with
      | false =>
          rw [hstored, if_neg Bool.false_ne_true, List.append_nil] at h
          obtain ⟨⟨old, hold, hrest⟩, hle⟩ := ih h
          rw [if_neg Bool.false_ne_true, List.append_nil]
          exact ⟨⟨old, Slots.getElem?_concat.mpr (.inl hold), hrest⟩, by omega⟩
      | true =>
          rw [hstored, if_pos rfl] at h
          rw [if_pos rfl, List.length_append, List.length_singleton]
          rcases Slots.getElem?_concat.mp h with h | ⟨rfl, hlast⟩
          · obtain ⟨⟨old, hold, hrest⟩, hle⟩ := ih h
            exact ⟨⟨old, Slots.getElem?_concat.mpr (.inl hold), hrest⟩, by omega⟩
          · cases hlast
            exact ⟨⟨sample, Slots.getElem?_concat.mpr (.inr ⟨rfl, rfl⟩), hstored, rfl⟩, by omega⟩

/-- An interval that stored its sample is in the list of stores, under its number. -/
theorem exists_store {closed : List Sample} {number : ℕ} {sample : Sample}
    (h : closed[number]? = some sample) (hstored : sample.stored = true) :
    ∃ j : ℕ, (stores closed)[j]? = some (number, sample.rate) := by
  refine List.mem_iff_getElem?.mp (List.mem_filterMap.mpr ⟨(sample, number), ?_, ?_⟩)
  · exact List.mem_zipIdx_iff_getElem?.mpr h
  · simp [hstored]

/-! ### The slots -/

/-- What the slot of a stored sample holds after `count` intervals: the sample, unless it was
cleared for its age. -/
structure Held (count : ℕ) (entry slot : ℕ × ℕ) : Prop where
  before : entry.1 < count
  number : slot.2 = entry.1
  rate : slot.1 = entry.2 ∨ slot.1 = 0 ∧ entry.1 + samplesKept < count

/-- A slot stays accounted for when the clock moves on by one interval. -/
theorem Held.succ {count : ℕ} {entry slot : ℕ × ℕ} (h : Held count entry slot) :
    Held (count + 1) entry slot :=
  ⟨Nat.lt_succ_of_lt h.before, h.number,
    h.rate.imp_right fun hcleared => ⟨hcleared.1, Nat.lt_succ_of_lt hcleared.2⟩⟩

namespace DeliveryRate

/-- The slots, each with its sample and its number. -/
def slots (d : DeliveryRate) (i : Fin samplesKept) : ℕ × ℕ :=
  (d.samples i, d.storedAt i)

/-- **What the slots hold** after the intervals `closed`. -/
structure Inv (closed : List Sample) (d : DeliveryRate) : Prop where
  intervals : d.intervals = closed.length % usizeCount
  next : d.next = Ring.slot samplesKept (stores closed).length
  kept : Ring.Keeps (Held closed.length) (stores closed) d.slots
  unused : ∀ i : Fin samplesKept, (stores closed).length ≤ i → d.samples i = 0

/-- The empty filter meets the invariant. -/
theorem inv_default : Inv [] .default where
  intervals := rfl
  next := rfl
  kept := Ring.keeps_nil _ _
  unused _ _ := rfl

variable {closed : List Sample} {d d' : DeliveryRate} {sample : Sample}

/-- Nothing but the slots and their counters matters. -/
theorem Inv.congr (h : Inv closed d) (hslots : d'.slots = d.slots) (hnext : d'.next = d.next)
    (hintervals : d'.intervals = d.intervals) : Inv closed d' where
  intervals := hintervals.trans h.intervals
  next := hnext.trans h.next
  kept := hslots ▸ h.kept
  unused i hi := (congrArg Prod.fst (congrFun hslots i)).trans (h.unused i hi)

/-- The age of a slot is counted in intervals. -/
theorem Inv.age_eq (h : Inv closed d) (hcount : closed.length < usizeCount)
    {i : Fin samplesKept} (hi : d.storedAt i < closed.length) :
    d.age i = closed.length - d.storedAt i := by
  have hsum : closed.length + usizeCount - d.storedAt i =
      closed.length - d.storedAt i + usizeCount := by
    omega
  rw [age, h.intervals, Nat.mod_eq_of_lt hcount, hsum, Nat.add_mod_right]
  exact Nat.mod_eq_of_lt (by omega)

/-- Expiry empties exactly the slots that are a whole window old. -/
theorem expire_samples (d : DeliveryRate) (i : Fin samplesKept) :
    d.expire.samples i = if samplesKept ≤ d.age i then 0 else d.samples i := by
  rw [expire]

/-- Expiry leaves the times of the slots. -/
@[simp] theorem expire_storedAt (d : DeliveryRate) : d.expire.storedAt = d.storedAt := by
  rw [expire]

/-- Expiry leaves the slot to write next. -/
@[simp] theorem expire_next (d : DeliveryRate) : d.expire.next = d.next := by
  rw [expire]

/-- Expiry leaves the clock. -/
@[simp] theorem expire_intervals (d : DeliveryRate) : d.expire.intervals = d.intervals := by
  rw [expire]

/-- Expiry clears what is ten intervals old, and nothing younger. -/
theorem Inv.expire_kept (h : Inv closed d) (hcount : closed.length < usizeCount) :
    Ring.Keeps (fun entry slot => Held (closed.length + 1) entry slot ∧
      (slot.1 ≠ 0 → closed.length < entry.1 + samplesKept)) (stores closed) d.expire.slots := by
  refine h.kept.mono fun entry i hheld => ?_
  have hnumber : d.storedAt i = entry.1 := hheld.number
  have hage := h.age_eq hcount (i := i) (by rw [hnumber]; exact hheld.before)
  have hslot : d.expire.slots i =
      (if samplesKept ≤ d.age i then 0 else d.samples i, d.storedAt i) := by
    rw [slots, expire_samples, expire_storedAt]
  rw [hslot, hage, hnumber]
  split_ifs with hold
  · have hbefore := hheld.before
    refine ⟨⟨Nat.lt_succ_of_lt hbefore, rfl, .inr ⟨rfl, ?_⟩⟩, fun hne => absurd rfl hne⟩
    omega
  · exact ⟨⟨hheld.succ.before, rfl, hheld.succ.rate⟩, fun _ => by omega⟩

/-- Counting an interval leaves the samples. -/
@[simp] theorem count_samples (d : DeliveryRate) : d.count.samples = d.samples := by
  rw [count]

/-- Counting an interval leaves the times of the slots. -/
@[simp] theorem count_storedAt (d : DeliveryRate) : d.count.storedAt = d.storedAt := by
  rw [count]

/-- Counting an interval leaves the slots. -/
@[simp] theorem slots_count (d : DeliveryRate) : d.count.slots = d.slots := by
  funext i
  rw [slots, slots, count_samples, count_storedAt]

/-- A write fills the next slot with the rate and the present interval, and no other. -/
theorem slots_write (d : DeliveryRate) (rate : ℕ) :
    (d.write rate).slots = Function.update d.slots d.next (rate, d.intervals) := by
  funext i
  by_cases hi : i = d.next
  · subst hi
    simp [slots, write]
  · simp [slots, write, hi]

/-- Writing a sample, over whatever was done to the slots. -/
theorem Inv.write (h : Inv closed d) (hcount : closed.length < usizeCount)
    (hstored : sample.stored = true) (hslots : Ring.Keeps (Held (closed.length + 1))
      (stores closed) d'.slots) (hunused : ∀ i, d.samples i = 0 → d'.samples i = 0)
    (hnext : d'.next = d.next) (hintervals : d'.intervals = d.intervals) :
    Inv (closed ++ [sample]) (d'.write sample.rate).count := by
  have hstores : stores (closed ++ [sample]) = stores closed ++ [(closed.length, sample.rate)] := by
    rw [stores_concat, hstored, if_pos rfl]
  have hnumber : d'.intervals = closed.length := by
    rw [hintervals, h.intervals, Nat.mod_eq_of_lt hcount]
  have hslot : d'.next = Ring.slot samplesKept (stores closed).length := hnext.trans h.next
  refine ⟨?_, ?_, ?_, ?_⟩
  · show (d'.intervals + 1) % usizeCount = _
    rw [List.length_append, List.length_singleton, hnumber]
  · rw [hstores, List.length_append, List.length_singleton]
    ext
    show (d'.next.val + 1) % samplesKept = _
    rw [hslot, Ring.slot_val, Ring.slot_val, Nat.mod_add_mod]
  · rw [hstores, List.length_append, List.length_singleton]
    have hpush := hslots.push (a := (closed.length, sample.rate)) (b := (sample.rate, d'.intervals))
      ⟨Nat.lt_succ_self _, hnumber, .inl rfl⟩
    rw [← hslot, ← slots_write, ← slots_count] at hpush
    exact hpush
  · intro i hi
    rw [hstores, List.length_append, List.length_singleton] at hi
    have hne : i ≠ d'.next := by
      rintro rfl
      rw [hslot, Ring.slot_val] at hi
      have := Nat.mod_le (stores closed).length samplesKept
      omega
    rw [count_samples]
    exact (Function.update_of_ne hne _ _).trans (hunused i (h.unused i (by omega)))

/-- **Closing an interval keeps the slots in order.** -/
theorem Inv.close (h : Inv closed d) (hcount : closed.length < usizeCount) (sample : Sample) :
    Inv (closed ++ [sample]) (d.close sample) := by
  rw [DeliveryRate.close]
  cases hstored : sample.stored with
  | false =>
      rw [if_neg Bool.false_ne_true]
      have hstores : stores (closed ++ [sample]) = stores closed := by
        rw [stores_concat, hstored, if_neg Bool.false_ne_true, List.append_nil]
      refine ⟨?_, ?_, ?_, ?_⟩
      · rw [List.length_append, List.length_singleton]
        show (d.intervals + 1) % usizeCount = _
        rw [h.intervals, Nat.mod_add_mod]
      · rw [hstores]
        exact h.next
      · rw [hstores, List.length_append, List.length_singleton]
        exact h.kept.mono fun _ _ => Held.succ
      · rw [hstores]
        exact h.unused
  | true =>
      rw [if_pos rfl, store]
      split_ifs
      · refine h.write hcount hstored ((h.expire_kept hcount).mono fun _ _ hheld => hheld.1) ?_
          d.expire_next d.expire_intervals
        intro i hi
        rw [expire_samples, hi, ite_self]
      · exact h.write hcount hstored (h.kept.mono fun _ _ => Held.succ) (fun _ => id) rfl rfl

/-- A sample above zero leaves nothing in the filter that is ten intervals older. -/
theorem Inv.close_fresh (h : Inv closed d) (hcount : closed.length < usizeCount)
    (hstored : sample.stored = true) (hpos : 0 < sample.rate) :
    Ring.Keeps (fun entry slot => Held (closed.length + 1) entry slot ∧
      (slot.1 ≠ 0 → closed.length < entry.1 + samplesKept)) (stores (closed ++ [sample]))
      (d.close sample).slots := by
  have hnumber : d.intervals = closed.length := h.intervals.trans (Nat.mod_eq_of_lt hcount)
  have hclose : (d.close sample).slots =
      Function.update d.expire.slots d.next (sample.rate, d.intervals) := by
    rw [DeliveryRate.close, if_pos hstored, store, if_pos hpos, slots_count, slots_write,
      expire_next, expire_intervals]
  rw [hclose, stores_concat, if_pos hstored, h.next]
  refine (h.expire_kept hcount).push ⟨⟨Nat.lt_succ_self _, hnumber, .inl rfl⟩, fun _ => ?_⟩
  have : 0 < samplesKept := by decide
  omega

/-- **Nothing stored less than ten intervals ago is lost.** -/
theorem Inv.held_of_recent (h : Inv closed d) {number : ℕ} (hsample : closed[number]? = some sample)
    (hstored : sample.stored = true) (hrecent : closed.length ≤ number + samplesKept) :
    ∃ i, d.samples i = sample.rate ∧ d.storedAt i = number := by
  obtain ⟨j, hj⟩ := exists_store hsample hstored
  obtain ⟨-, hle⟩ := length_stores_le hj
  have hheld := h.kept j _ hj (by omega)
  refine ⟨_, hheld.rate.resolve_right fun hcleared => ?_, hheld.number⟩
  have hold : number + samplesKept < closed.length := hcleared.2
  omega

/-- The next slot to be written is that of the sample stored ten stores before. -/
theorem Inv.oldest (h : Inv closed d) :
    d.samples d.next = 0 ∨ ∃ j number, (stores closed).length = j + samplesKept ∧
      (stores closed)[j]? = some (number, d.samples d.next) := by
  rcases Nat.lt_or_ge (stores closed).length samplesKept with hfew | hmany
  · refine .inl (h.unused _ ?_)
    rw [h.next, Ring.slot_val, Nat.mod_eq_of_lt hfew]
  · have hlt : (stores closed).length - samplesKept < (stores closed).length := by
      have : 0 < samplesKept := by decide
      omega
    have hslot : Ring.slot samplesKept ((stores closed).length - samplesKept) = d.next := by
      rw [h.next]
      ext
      rw [Ring.slot_val, Ring.slot_val, ← Nat.mod_eq_sub_mod hmany]
    have hheld := h.kept _ _ (List.getElem?_eq_getElem hlt) (by omega)
    rw [hslot] at hheld
    rcases hheld.rate with hrate | ⟨hzero, -⟩
    · refine .inr ⟨(stores closed).length - samplesKept, d.storedAt d.next, by omega, ?_⟩
      rw [List.getElem?_eq_getElem hlt]
      exact congrArg some (Prod.ext hheld.number.symm hrate.symm)
    · exact .inl hzero

/-! ### The estimate -/

/-- No kept sample is above the peak. -/
theorem le_peak (d : DeliveryRate) (i : Fin samplesKept) : d.samples i ≤ d.peak :=
  Finset.le_sup (Finset.mem_univ i)

/-- The peak is one of the kept samples. -/
theorem exists_peak (d : DeliveryRate) : ∃ i, d.samples i = d.peak := by
  obtain ⟨i, -, hi⟩ := Finset.exists_mem_eq_sup Finset.univ Finset.univ_nonempty d.samples
  exact ⟨i, hi.symm⟩

/-- The peak is the least bound of the kept samples. -/
theorem peak_le {bound : ℕ} (h : ∀ i, d.samples i ≤ bound) : d.peak ≤ bound :=
  Finset.sup_le fun i _ => h i

/-- The filter's maximum is the peak, with zero standing for none. -/
theorem getD_max (d : DeliveryRate) : d.max.getD 0 = d.peak := by
  rw [max]
  split_ifs with hpos
  · rfl
  · exact (Nat.eq_zero_of_not_pos hpos).symm

/-- The maximum depends on the samples only. -/
theorem max_congr (h : d'.samples = d.samples) : d'.max = d.max := by
  rw [max, max, peak, peak, h]

/-- The estimate after a positive sample is the largest sample of the last ten intervals. -/
theorem Inv.isGreatest_peak (h : Inv closed d) (hcount : closed.length < usizeCount)
    (hstored : sample.stored = true) (hpos : 0 < sample.rate) :
    IsGreatest {rate | ∃ number other, (closed ++ [sample])[number]? = some other ∧
      other.stored = true ∧ closed.length ≤ number + 9 ∧ other.rate = rate}
      (d.close sample).peak := by
  have hclose := h.close hcount sample
  have hkept : samplesKept = 10 := rfl
  have hlength : (closed ++ [sample]).length = closed.length + 1 := List.length_append
  have hle : ∀ number other, (closed ++ [sample])[number]? = some other → other.stored = true →
      closed.length ≤ number + 9 → other.rate ≤ (d.close sample).peak := by
    intro number other hother hstored' hrecent
    obtain ⟨i, hi, -⟩ := hclose.held_of_recent hother hstored' (by omega)
    exact hi ▸ le_peak _ i
  constructor
  · obtain ⟨i, hi⟩ := exists_peak (d.close sample)
    have hlast : (closed ++ [sample])[closed.length]? = some sample := List.getElem?_concat_length
    have hnonzero : (d.close sample).samples i ≠ 0 := by
      have := hle _ _ hlast hstored (Nat.le_add_right _ _)
      omega
    rcases Ring.exists_entry (stores (closed ++ [sample])) i with
      ⟨j, entry, hj, hnear, rfl⟩ | hunused
    · obtain ⟨⟨-, -, hrate⟩, hfresh⟩ := h.close_fresh hcount hstored hpos j entry hj hnear
      obtain ⟨⟨other, hother, hstored', hrate'⟩, -⟩ := length_stores_le hj
      have hentry := hrate.resolve_right fun hcleared => hnonzero hcleared.1
      refine ⟨_, other, hother, hstored', ?_, hrate'.trans (hentry.symm.trans hi)⟩
      have := hfresh hnonzero
      omega
    · exact absurd (hclose.unused i hunused) hnonzero
  · rintro rate ⟨number, other, hother, hstored', hrecent, rfl⟩
    exact hle number other hother hstored' hrecent

/-- An app-limited sample that is stored is the new estimate. -/
theorem peak_close_of_lt (h : sample.stored = true) (hlt : d.peak < sample.rate) :
    (d.close sample).peak = sample.rate := by
  have hclose : (d.close sample).samples = Function.update d.expire.samples d.next sample.rate := by
    rw [close, if_pos h, store, if_pos (Nat.zero_lt_of_lt hlt), count_samples, ← expire_next]
    rfl
  apply Nat.le_antisymm
  · refine peak_le fun i => ?_
    rw [hclose]
    by_cases hi : i = d.next
    · rw [hi, Function.update_self]
    · rw [Function.update_of_ne hi, expire_samples]
      split_ifs
      · exact Nat.zero_le _
      · exact Nat.le_of_lt (Nat.lt_of_le_of_lt (d.le_peak i) hlt)
  · have hle := le_peak (d.close sample) d.next
    rw [hclose, Function.update_self] at hle
    exact hle

/-! ### Calls -/

/-- **Everything a call can do** to the filter: nothing, or close an interval. -/
theorem call_cases (d : DeliveryRate) (c : Call) :
    ((d.call c).1 = none ∧ (d.call c).2.slots = d.slots ∧ (d.call c).2.next = d.next ∧
      (d.call c).2.intervals = d.intervals) ∨
    ∃ now started appLimited, d.call c =
      (some ((d.limit appLimited).measure (now - started)),
        ((d.limit appLimited).close
          ((d.limit appLimited).measure (now - started))).restart now) := by
  cases c with
  | onAck sent bytes appLimited => exact .inl ⟨rfl, rfl, rfl, rfl⟩
  | onEndAcks now appLimited round =>
      rw [call, onEndAcks]
      cases hstarted : (d.limit appLimited).started with
      | none => exact .inl ⟨rfl, rfl, rfl, rfl⟩
      | some started =>
          simp only
          split_ifs
          · exact .inl ⟨rfl, rfl, rfl, rfl⟩
          · exact .inr ⟨now, started, appLimited, rfl⟩

end DeliveryRate

namespace Measured

open DeliveryRate

variable {m : Measured}

/-- **Step lemma**: a call keeps the invariant while the clock fits a `usize`. -/
theorem inv_step (h : Inv m.closed m.rate) (hcount : m.closed.length < usizeCount) (c : Call) :
    Inv (m.step c).closed (m.step c).rate := by
  rw [step]
  rcases m.rate.call_cases c with
    ⟨hnone, hslots, hnext, hintervals⟩ | ⟨now, started, limited, hcall⟩
  · rw [hnone, Option.toList_none, List.append_nil]
    exact h.congr hslots hnext hintervals
  · rw [hcall]
    have hlimit : Inv m.closed (m.rate.limit limited) := h.congr rfl rfl rfl
    exact (hlimit.close hcount _).congr rfl rfl rfl

/-- A call never takes a closed interval back. -/
theorem length_closed_le (m : Measured) (c : Call) :
    m.closed.length ≤ (m.step c).closed.length := by
  rw [step, List.length_append]
  exact Nat.le_add_right _ _

/-- **In every run the slots are in order**, as long as the counter of intervals does not
wrap. -/
theorem inv_run (calls : List Call) (hcount : (run calls).closed.length < usizeCount) :
    Inv (run calls).closed (run calls).rate := by
  induction calls using List.reverseRecOn with
  | nil => exact inv_default
  | append_singleton calls c ih =>
      have hrun : run (calls ++ [c]) = (run calls).step c := List.foldl_concat ..
      rw [hrun] at hcount ⊢
      have hlt := Nat.lt_of_le_of_lt (length_closed_le (run calls) c) hcount
      exact inv_step (ih hlt) hlt c

/-- The samples stored in the ten intervals up to the one that closes with `sample`. -/
def window (m : Measured) (sample : Sample) : Set ℕ :=
  {rate | ∃ number other, (m.closed ++ [sample])[number]? = some other ∧ other.stored = true ∧
    m.closed.length ≤ number + 9 ∧ other.rate = rate}

/-- **The filter is a windowed maximum that forgets only on purpose.** -/
structure Windowed (m : Measured) : Prop where
  /-- What was stored less than ten intervals ago is in its slot. -/
  kept : ∀ (number : ℕ) (sample : Sample), m.closed[number]? = some sample →
    sample.stored = true → m.closed.length ≤ number + 10 →
    ∃ i, m.rate.samples i = sample.rate ∧ m.rate.storedAt i = number
  /-- After a positive sample the estimate is the largest of ten intervals. -/
  positive : ∀ (c : Call) (sample : Sample), (m.rate.call c).1 = some sample →
    sample.stored = true → 0 < sample.rate →
    ∃ largest, (m.step c).rate.max = some largest ∧ IsGreatest (m.window sample) largest
  /-- A sample that is not stored leaves the estimate as it is. -/
  skipped : ∀ (c : Call) (sample : Sample), (m.rate.call c).1 = some sample →
    sample.stored = false → (m.step c).rate.max = m.rate.max
  /-- An app-limited sample only counts when it is above the estimate. -/
  appLimited : ∀ (c : Call) (sample : Sample), (m.rate.call c).1 = some sample →
    sample.appLimited = true →
    (m.step c).rate.max.getD 0 = Nat.max (m.rate.max.getD 0) sample.rate
  /-- A stored zero changes one slot, which holds the sample of ten stores before if anything. -/
  zero : ∀ (c : Call) (sample : Sample), (m.rate.call c).1 = some sample →
    sample.stored = true → sample.rate = 0 →
    (∀ i, i ≠ m.rate.next → (m.step c).rate.samples i = m.rate.samples i) ∧
      (m.rate.samples m.rate.next = 0 ∨ ∃ j number, (stores m.closed).length = j + 10 ∧
        (stores m.closed)[j]? = some (number, m.rate.samples m.rate.next))

/-- What is known of a call that closes an interval. -/
theorem exists_close {c : Call} {sample : Sample} (h : (m.rate.call c).1 = some sample) :
    ∃ limited elapsed, sample = (m.rate.limit limited).measure elapsed ∧
      (m.step c).rate.samples = ((m.rate.limit limited).close sample).samples := by
  rw [step]
  rcases m.rate.call_cases c with ⟨hnone, -⟩ | ⟨now, started, limited, hcall⟩
  · rw [hnone] at h
    cases h
  · rw [hcall] at h ⊢
    cases h
    exact ⟨limited, now - started, rfl, rfl⟩

/-- An interval that stores nothing leaves the maximum. -/
theorem max_close_of_not_stored {d : DeliveryRate} {sample : Sample} (h : sample.stored = false) :
    (d.close sample).max = d.max := by
  refine max_congr ?_
  rw [close, h, if_neg Bool.false_ne_true, count_samples]

/-- An app-limited sample is stored exactly when it is above the estimate. -/
theorem peak_close_of_appLimited {d : DeliveryRate} {elapsed : ℕ}
    (h : (d.measure elapsed).appLimited = true) :
    (d.close (d.measure elapsed)).peak = Nat.max d.peak (d.measure elapsed).rate := by
  have hstored : (d.measure elapsed).stored = decide (d.peak < (d.measure elapsed).rate) := by
    have hlimited : d.appLimited = true := h
    rw [← getD_max]
    simp [DeliveryRate.measure, hlimited]
  by_cases hlt : d.peak < (d.measure elapsed).rate
  · rw [peak_close_of_lt (by rw [hstored, decide_eq_true hlt]) hlt]
    exact (Nat.max_eq_right hlt.le).symm
  · rw [← getD_max, max_close_of_not_stored (by rw [hstored, decide_eq_false hlt]), getD_max]
    exact (Nat.max_eq_left (Nat.le_of_not_lt hlt)).symm

/-- Under the invariant the maximum is that of the last ten intervals. -/
theorem windowed_of_inv (h : Inv m.closed m.rate) (hcount : m.closed.length < usizeCount) :
    Windowed m where
  kept number sample hsample hstored hrecent := h.held_of_recent hsample hstored hrecent
  positive := by
    intro c sample hsample hstored hpos
    obtain ⟨limited, elapsed, -, hsamples⟩ := exists_close hsample
    have hlimit : Inv m.closed (m.rate.limit limited) := h.congr rfl rfl rfl
    have hgreatest := hlimit.isGreatest_peak hcount hstored hpos
    refine ⟨_, ?_, hgreatest⟩
    have hle : sample.rate ≤ ((m.rate.limit limited).close sample).peak :=
      hgreatest.2 ⟨_, sample, List.getElem?_concat_length, hstored, Nat.le_add_right _ _, rfl⟩
    rw [max_congr hsamples, DeliveryRate.max, if_pos (Nat.lt_of_lt_of_le hpos hle)]
  skipped := by
    intro c sample hsample hstored
    obtain ⟨limited, elapsed, -, hsamples⟩ := exists_close hsample
    rw [max_congr hsamples, max_close_of_not_stored hstored]
    rfl
  appLimited := by
    intro c sample hsample hlimited
    obtain ⟨limited, elapsed, rfl, hsamples⟩ := exists_close hsample
    rw [max_congr hsamples, getD_max, getD_max, peak_close_of_appLimited hlimited]
    rfl
  zero := by
    intro c sample hsample hstored hzero
    obtain ⟨limited, elapsed, -, hsamples⟩ := exists_close hsample
    refine ⟨fun i hi => ?_, h.oldest⟩
    rw [hsamples, close, if_pos hstored, store, hzero, if_neg (Nat.lt_irrefl 0), count_samples]
    exact Function.update_of_ne hi _ _

end Measured

/-- **The bandwidth filter is a sliding-window maximum that forgets only on purpose**, after
every sequence of calls that has closed fewer intervals than a `usize` counts. -/
theorem filter_window (calls : List DeliveryRate.Call)
    (hcount : (Measured.run calls).closed.length < usizeCount) :
    (Measured.run calls).Windowed :=
  Measured.windowed_of_inv (Measured.inv_run calls hcount) hcount

/-- One interval at ten times the rate of the ten after it: nine of these leave the peak in the
window, and with the tenth the estimate falls to what is left. -/
theorem filter_window_peak_leaves :
    let m := Measured.run ([.onEndAcks 0 false 0, .onAck 0 120000 false,
      .onEndAcks 20000000 false 0] ++ (List.range 9).flatMap (fun k =>
        [.onAck 0 12000 false, .onEndAcks ((k + 2) * 20000000) false 0]) ++
      [.onAck 0 12000 false])
    m.closed.length = 10 ∧ m.rate.max = some 6000000 ∧
      (m.step (.onEndAcks 220000000 false 0)).rate.max = some 600000 ∧
      IsGreatest (m.window ⟨600000, false, true, 20000000, 0⟩) 600000 := by
  intro m
  have hlength : m.closed.length = 10 := by decide +kernel
  have hafter : (m.step (.onEndAcks 220000000 false 0)).rate.max = some 600000 := by
    decide +kernel
  have hcount : m.closed.length < usizeCount := by
    rw [hlength]
    decide
  obtain ⟨largest, hmax, hgreatest⟩ := (filter_window _ hcount).positive
    (.onEndAcks 220000000 false 0) ⟨600000, false, true, 20000000, 0⟩ (by decide +kernel) rfl
    (by decide)
  obtain rfl : 600000 = largest := Option.some.inj (hafter.symm.trans hmax)
  exact ⟨hlength, by decide +kernel, hafter, hgreatest⟩

end Congestion

end Volto
