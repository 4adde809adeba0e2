import Cortos.Time.Simulation

/-!
# The clock of the simulation driver in `RealTime` mode

`realtime_now_ticks` (`time_driver_simulation.cpp:89–101`) turns the nanoseconds since the
epoch into ticks. It multiplies by the frequency in 64 bits before it divides, so the ticks
depend on the product modulo `2 ^ 64`.

`realtime_exact_iff`: up to a given uptime the clock is exact if and only if the product
stays below `2 ^ 64` until then, and it is monotone under the same condition: when the
product wraps for the first time, the clock goes back to its beginning.
-/

namespace Cortos.Time

/-- `simulation::Mode`. -/
inductive Mode where
  | virtual
  | realTime
  deriving DecidableEq, Repr

/-- The driver's state with its mode and its epoch, in nanoseconds of the steady clock. -/
structure SimClock where
  mode : Mode := .virtual
  ds : SimState := {}
  realtimeEpoch : Int := 0

namespace SimClock

/-- `realtime_now_ticks`, when the steady clock reads `steadyNow`. -/
def realtimeNowTicks (clk : SimClock) (steadyNow : Int) : Nat :=
  if !clk.ds.started then 0
  else
    let ns := max (steadyNow - clk.realtimeEpoch) 0
    (ns.toNat % 2 ^ 64 * clk.ds.tickFrequencyHz) % 2 ^ 64 / 1000000000

/-- `now`. -/
def now (clk : SimClock) (steadyNow : Int) : Nat :=
  match clk.mode with
  | .virtual => clk.ds.virtualNow
  | .realTime => clk.realtimeNowTicks steadyNow

/-- The driver runs in `RealTime` mode with a 32-bit frequency. -/
structure Realtime (clk : SimClock) : Prop where
  mode : clk.mode = .realTime
  started : clk.ds.started = true
  frequency : clk.ds.tickFrequencyHz < 2 ^ 32

variable {clk : SimClock} {ns uptime : Nat}

theorem Realtime.now_eq (h : clk.Realtime) (hns : ns < 2 ^ 63) :
    clk.now (clk.realtimeEpoch + ns) =
      ns * clk.ds.tickFrequencyHz % 2 ^ 64 / 1000000000 := by
  have helapsed : max (clk.realtimeEpoch + ns - clk.realtimeEpoch) 0 = (ns : Int) := by omega
  have hcast : ns % 2 ^ 64 = ns := Nat.mod_eq_of_lt (by omega)
  rw [now, h.mode]
  show clk.realtimeNowTicks _ = _
  rw [realtimeNowTicks, h.started]
  simp only [Bool.not_true, Bool.false_eq_true, if_false, helapsed, Int.toNat_natCast, hcast]

/-- The product of an earlier instant is not larger. -/
theorem product_le {f : Nat} (hns : ns ≤ uptime) (hfit : uptime * f < 2 ^ 64) :
    ns * f < 2 ^ 64 :=
  Nat.lt_of_le_of_lt (Nat.mul_le_mul_right f hns) hfit

/-- A product that wraps has lost at least eighteen seconds' worth of nanoseconds. -/
theorem exact_iff {x : Nat} : x % 2 ^ 64 / 1000000000 = x / 1000000000 ↔ x < 2 ^ 64 := by
  constructor
  · intro h
    omega
  · intro h
    rw [Nat.mod_eq_of_lt h]

/-- The first instant at which the product wraps: it has just passed `2 ^ 64`. -/
theorem first_wrap {f : Nat} (hwrap : 2 ^ 64 ≤ uptime * f) :
    ∃ n, n + 1 ≤ uptime ∧ n * f < 2 ^ 64 ∧ 2 ^ 64 ≤ (n + 1) * f := by
  induction uptime with
  | zero =>
    rw [Nat.zero_mul] at hwrap
    exact absurd hwrap (by decide)
  | succ uptime ih =>
    by_cases hprev : 2 ^ 64 ≤ uptime * f
    · obtain ⟨n, hn, hlt, hle⟩ := ih hprev
      exact ⟨n, Nat.le_succ_of_le hn, hlt, hle⟩
    · exact ⟨uptime, Nat.le_refl _, Nat.lt_of_not_le hprev, hwrap⟩

/-- At that instant the clock goes back. -/
theorem goes_back {f n : Nat} (hf : f < 2 ^ 32) (hlt : n * f < 2 ^ 64)
    (hle : 2 ^ 64 ≤ (n + 1) * f) :
    (n + 1) * f % 2 ^ 64 / 1000000000 < n * f % 2 ^ 64 / 1000000000 := by
  rw [Nat.add_mul, Nat.one_mul] at hle ⊢
  omega

/-- **When the real-time clock is right.** For every frequency and every uptime: `now` is the
exact number of ticks at all instants up to `uptime` if and only if the product of uptime and
frequency fits 64 bits, and it never goes back before `uptime` under the same condition. -/
theorem realtime_exact_iff {clk : SimClock} (h : clk.Realtime) {uptime : Nat}
    (huptime : uptime < 2 ^ 63) :
    ((∀ ns ≤ uptime, clk.now (clk.realtimeEpoch + (ns : Nat)) =
        ns * clk.ds.tickFrequencyHz / 1000000000) ↔
      uptime * clk.ds.tickFrequencyHz < 2 ^ 64) ∧
    ((∀ ns₁ ns₂ : Nat, ns₁ ≤ ns₂ → ns₂ ≤ uptime →
        clk.now (clk.realtimeEpoch + ns₁) ≤ clk.now (clk.realtimeEpoch + ns₂)) ↔
      uptime * clk.ds.tickFrequencyHz < 2 ^ 64) := by
  have hnow : ∀ ns ≤ uptime, clk.now (clk.realtimeEpoch + (ns : Nat)) =
      ns * clk.ds.tickFrequencyHz % 2 ^ 64 / 1000000000 := fun ns hns =>
    h.now_eq (Nat.lt_of_le_of_lt hns huptime)
  have hexact : uptime * clk.ds.tickFrequencyHz < 2 ^ 64 → ∀ ns ≤ uptime,
      clk.now (clk.realtimeEpoch + (ns : Nat)) = ns * clk.ds.tickFrequencyHz / 1000000000 := by
    intro hfit ns hns
    rw [hnow ns hns]
    exact exact_iff.mpr (product_le hns hfit)
  refine ⟨⟨fun hall => ?_, hexact⟩, fun hmono => ?_, fun hfit ns₁ ns₂ hle hup => ?_⟩
  · have hlast := hall uptime (Nat.le_refl _)
    rw [hnow uptime (Nat.le_refl _)] at hlast
    exact exact_iff.mp hlast
  · refine Nat.lt_of_not_le fun hwrap => ?_
    obtain ⟨n, hn, hlt, hle⟩ := first_wrap hwrap
    have hback := hmono n (n + 1) (Nat.le_succ n) hn
    rw [hnow n (by omega), hnow (n + 1) hn] at hback
    exact Nat.not_le_of_lt (goes_back h.frequency hlt hle) hback
  · rw [hexact hfit ns₁ (Nat.le_trans hle hup), hexact hfit ns₂ hup]
    exact Nat.div_le_div_right (Nat.mul_le_mul_right _ hle)

/-- A driver that was started in `RealTime` mode at the default frequency of 1 kHz. -/
def startedClock : SimClock where
  mode := .realTime
  ds := { started := true }
  realtimeEpoch := 5000

/-- A day after the start. -/
theorem first_day_exact :
    startedClock.now (5000 + (86400000000000 : Nat)) = 86400000 ∧
    ∀ ns ≤ 86400000000000, startedClock.now (startedClock.realtimeEpoch + (ns : Nat)) =
      ns * startedClock.ds.tickFrequencyHz / 1000000000 :=
  ⟨by decide +kernel, (realtime_exact_iff ⟨rfl, rfl, by decide⟩ (by decide)).1.mpr (by decide)⟩

/-- **The clock goes back after 213 days.** At 1 kHz the product wraps between two
nanoseconds; the clock falls from 18446744073 ticks to zero. -/
theorem clock_goes_back :
    startedClock.now (startedClock.realtimeEpoch + (18446744073709551 : Nat)) = 18446744073 ∧
    startedClock.now (startedClock.realtimeEpoch + (18446744073709552 : Nat)) = 0 ∧
    18446744073709552 * 1000 / 1000000000 = 18446744073 := by
  decide +kernel

end SimClock

end Cortos.Time
