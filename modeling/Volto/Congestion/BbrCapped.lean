import Volto.Congestion.DeliveryRate
import Volto.Lib.History

/-!
# The Capped Controller

`BbrCapped` of `congestion.rs`: quinn's BBR with its window capped at a multiple of the measured
bandwidth-delay product. The bandwidth comes from `DeliveryRate`, the delay from the lowest RTT
sample, which is measured again by a probe when it has grown old.

quinn's own controller is a parameter: the wrapper passes every callback on to it and asks it for
its windows. A callback finds the smoothed RTT in quinn's estimator, of which it uses nothing
else. Products that the source takes in 128 bits are natural numbers.
-/

namespace Volto

namespace Congestion

/-- quinn's BBR and its RTT estimator, as far as the wrapper calls them. -/
structure Bbr where
  State : Type
  RttEstimator : Type
  /-- `RttEstimator::get`: the smoothed RTT. -/
  get : RttEstimator → ℕ
  onSent : State → (now bytes lastPacketNumber : ℕ) → State
  onAck : State → (now sent bytes : ℕ) → (appLimited : Bool) → RttEstimator → State
  onEndAcks : State → (now inFlight : ℕ) → (appLimited : Bool) → (largest : Option ℕ) → State
  onCongestionEvent : State → (now sent : ℕ) → (persistent : Bool) → (lostBytes : ℕ) → State
  onMtuUpdate : State → (newMtu : ℕ) → State
  window : State → ℕ
  initialWindow : State → ℕ

/-! ### The startup -/

/-- The gain on the window, outside startup. -/
def cwndGainPermille : ℕ := 1250

/-- The probe window as a multiple of the bandwidth-delay product. -/
def probeGainPermille : ℕ := 500

/-- The gain on the window, in startup. -/
def startupGainPermille : ℕ := 2885

/-- How much the estimate has to rise to count as growth. -/
def growthPercent : ℕ := 125

/-- How many samples in a row without growth end the startup. -/
def samplesWithoutGrowth : ℕ := 3

/-- How far the estimate has to be below its highest value for a rise to count. -/
def fallenPercent : ℕ := 50

/-- How many rises in a row bring the startup back. -/
def risesToRestart : ℕ := 3

/-- The state of BBR's full-bandwidth test, and of the rule that brings the startup back. -/
structure Startup where
  ended : Bool := false
  /-- The estimate when it last grew. -/
  grownTo : ℕ := 0
  /-- Samples since then that did not grow it. -/
  flat : ℕ := 0
  /-- Whether a congestion event came in the current sample interval. -/
  congested : Bool := false
  /-- The highest estimate so far. -/
  peak : ℕ := 0
  /-- The estimate after the last sample interval that was not app-limited. -/
  last : ℕ := 0
  rises : ℕ := 0
deriving DecidableEq, Repr

namespace Startup

/-- Brings the startup back once enough samples in a row have raised a fallen estimate. -/
def countRise (s : Startup) (estimate : ℕ) : Startup :=
  let fallen := s.last * 100 < s.peak * fallenPercent
  let rose := s.last < estimate
  let rises := if fallen ∧ rose then s.rises + 1 else 0
  if risesToRestart ≤ rises then { grownTo := estimate, peak := s.peak, last := estimate }
  else { s with last := estimate, rises }

/-- Applies the test to the sample interval that has just closed. -/
def onInterval (s : Startup) (estimate : ℕ) (appLimited : Bool) : Startup :=
  let congested := s.congested
  let s := { s with congested := false, peak := max s.peak estimate }
  if s.ended then
    if appLimited then s else s.countRise estimate
  else
    let s := if appLimited then s else { s with last := estimate }
    if appLimited ∧ ¬congested then s
    else if s.grownTo * growthPercent ≤ estimate * 100 then
      { s with grownTo := estimate, flat := 0 }
    else if congested then { s with ended := true }
    else { s with flat := s.flat + 1, ended := decide (samplesWithoutGrowth ≤ s.flat + 1) }

end Startup

/-! ### The controller -/

/-- How long a minimum RTT holds before a probe measures it again: 10 s. -/
def minRttLifetime : ℕ := 10 * 1000000000

/-- The shortest time a probe holds its window: 200 ms. -/
def probeTime : ℕ := 200 * 1000000

/-- The smallest probe window, in packets. -/
def probeMinPackets : ℕ := 4

/-- A probe that holds the window low to measure the minimum RTT again. -/
structure Probe where
  /-- The lowest RTT sample since the probe started. -/
  min : ℕ
  /-- When the probe ends; `none` until in-flight data has fallen to the probe window. -/
  ends : Option ℕ
deriving DecidableEq, Repr

/-- quinn's BBR with its window capped. -/
structure BbrCapped (quinn : Bbr) where
  inner : quinn.State
  rate : DeliveryRate
  startup : Startup
  /-- The lowest RTT sample and when it was taken; `none` before the first ACK. -/
  minRtt : Option (ℕ × ℕ)
  probe : Option Probe
  srtt : ℕ
  mtu : ℕ

namespace BbrCapped

variable {quinn : Bbr}

/-- `BbrCappedConfig::build`. -/
def build (inner : quinn.State) (currentMtu : ℕ) : BbrCapped quinn where
  inner := inner
  rate := .default
  startup := {}
  minRtt := none
  probe := none
  srtt := 0
  mtu := currentMtu

variable (c : BbrCapped quinn)

/-- The window limit, once there is a delivery-rate sample to compute it from. -/
def cap : Option ℕ := do
  let bandwidth ← c.rate.max
  let (minRtt, _) ← c.minRtt
  let (gainPermille, floor) :=
    match c.probe with
    | none =>
        if c.startup.ended then (cwndGainPermille, quinn.initialWindow c.inner)
        else (startupGainPermille, quinn.initialWindow c.inner)
    | some _ => (probeGainPermille, probeMinPackets * c.mtu)
  let bytes := bandwidth * asMicros minRtt * gainPermille / 1000000000
  some (max (min bytes rateMax) floor)

/-- `Controller::window`. -/
def window : ℕ :=
  let inner := quinn.window c.inner
  c.cap.elim inner (min inner)

/-- An ACK outside of a probe: it takes the minimum, or starts a probe when that has grown old. -/
def takeMinimum (now rtt : ℕ) (appLimited : Bool) : BbrCapped quinn :=
  match c.minRtt with
  | some (min, taken) =>
      if min < rtt then
        if ¬appLimited ∧ minRttLifetime < now - taken then { c with probe := some ⟨rtt, none⟩ }
        else c
      else { c with minRtt := some (rtt, now) }
  | none => { c with minRtt := some (rtt, now) }

/-- The part of `on_ack` that is the wrapper's own. The ACKs of a probe count as app-limited. -/
def recordAck (now sent bytes : ℕ) (appLimited : Bool) (srtt : ℕ) : BbrCapped quinn :=
  let c := { c with srtt, rate := c.rate.onAck sent bytes (appLimited || c.probe.isSome) }
  let rtt := now - sent
  match c.probe with
  | some probe => { c with probe := some { probe with min := min probe.min rtt } }
  | none => c.takeMinimum now rtt appLimited

/-- Starts the probe's clock once in-flight data has fallen to the probe window, and ends the
probe when that time is up. -/
def updateProbe (now inFlight : ℕ) : BbrCapped quinn :=
  match c.probe with
  | none => c
  | some probe =>
      match probe.ends with
      | none =>
          if c.cap.all (inFlight ≤ ·) then
            { c with probe := some { probe with ends := some (now + max probeTime c.srtt) } }
          else c
      | some ends =>
          if ends ≤ now then { c with minRtt := some (probe.min, now), probe := none } else c

/-- The first part of `on_end_acks`: the sample interval, if it closes. -/
def updateRate (now inFlight : ℕ) (appLimited : Bool) (largest : Option ℕ) : BbrCapped quinn :=
  let c := { c with inner := quinn.onEndAcks c.inner now inFlight appLimited largest }
  match c.rate.onEndAcks now appLimited c.srtt with
  | (some sample, rate) =>
      { c with rate, startup := c.startup.onInterval (rate.max.getD 0) sample.appLimited }
  | (none, rate) => { c with rate }

/-- Called for every packet sent. -/
def onSent (now bytes lastPacketNumber : ℕ) : BbrCapped quinn :=
  { c with inner := quinn.onSent c.inner now bytes lastPacketNumber }

/-- Called for every packet acknowledged. -/
def onAck (now sent bytes : ℕ) (appLimited : Bool) (rtt : quinn.RttEstimator) : BbrCapped quinn :=
  { c with inner := quinn.onAck c.inner now sent bytes appLimited rtt }.recordAck now sent bytes
    appLimited (quinn.get rtt)

/-- Called once behind a batch of acknowledgements. -/
def onEndAcks (now inFlight : ℕ) (appLimited : Bool) (largest : Option ℕ) : BbrCapped quinn :=
  (c.updateRate now inFlight appLimited largest).updateProbe now inFlight

/-- Called on congestion, which startup takes note of. -/
def onCongestionEvent (now sent : ℕ) (persistent : Bool) (lostBytes : ℕ) : BbrCapped quinn :=
  { c with
    inner := quinn.onCongestionEvent c.inner now sent persistent lostBytes
    startup := { c.startup with congested := true } }

/-- Called when the path takes larger packets. -/
def onMtuUpdate (newMtu : ℕ) : BbrCapped quinn :=
  { c with inner := quinn.onMtuUpdate c.inner newMtu, mtu := newMtu }

end BbrCapped

/-- A callback of `Controller`. -/
inductive Callback (quinn : Bbr)
  | onSent (now bytes lastPacketNumber : ℕ)
  | onAck (now sent bytes : ℕ) (appLimited : Bool) (rtt : quinn.RttEstimator)
  | onEndAcks (now inFlight : ℕ) (appLimited : Bool) (largest : Option ℕ)
  | onCongestionEvent (now sent : ℕ) (persistent : Bool) (lostBytes : ℕ)
  | onMtuUpdate (newMtu : ℕ)

/-- The RTT sample a callback brings. -/
def Callback.rttSample {quinn : Bbr} : Callback quinn → Option ℕ
  | .onAck now sent _ _ _ => some (now - sent)
  | _ => none

namespace BbrCapped

variable {quinn : Bbr}

/-- One callback. -/
def step (c : BbrCapped quinn) : Callback quinn → BbrCapped quinn
  | .onSent now bytes lastPacketNumber => c.onSent now bytes lastPacketNumber
  | .onAck now sent bytes appLimited rtt => c.onAck now sent bytes appLimited rtt
  | .onEndAcks now inFlight appLimited largest => c.onEndAcks now inFlight appLimited largest
  | .onCongestionEvent now sent persistent lostBytes =>
      c.onCongestionEvent now sent persistent lostBytes
  | .onMtuUpdate newMtu => c.onMtuUpdate newMtu

end BbrCapped

end Congestion

end Volto
