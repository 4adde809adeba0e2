import Mathlib.Data.Rat.Floor
import Cortos.Lib.Rounding
import Cortos.Time.Conversion
import Cortos.Time.Lifecycle

/-!
# Durations are rounded up exactly

The tickless and the simulation driver convert with the frequency that was passed to
`initialise`. They multiply in 64 bits, add the divisor less one and divide. Argument and
frequency are `uint32_t`, so neither the product nor the sum wraps: the product of two
32-bit numbers leaves room for a rounding term of almost `2 ^ 33`
(`Lib.mul_add_lt_mul_self`).

`conversions_exact` says what follows, for every frequency: the ticks are the exact
ceiling, and so the conversions have the laws of `Lib.RoundsUp`. The periodic driver
converts with the port's frequency, a `uint64_t`, and has them for the frequencies that
fit 32 bits (`DriverState.rounds_up`).
-/

namespace Cortos.Time

open Lib

/-! ## The conversions of the simulation driver -/

namespace SimState

/-- The conversion of `x` units of which a second has `perSecond`; `bias` is added before
the division. -/
def ticks (ds : SimState) (bias perSecond x : Nat) : Nat :=
  (x * ds.tickFrequencyHz % 2 ^ 64 + bias) % 2 ^ 64 / perSecond

/-- `from_milliseconds`, on an initialised driver. -/
def fromMilliseconds (ds : SimState) (ms : Nat) : Nat := ds.ticks 999 1000 ms

/-- `from_microseconds`, on an initialised driver. -/
def fromMicroseconds (ds : SimState) (us : Nat) : Nat := ds.ticks 999999 1000000 us

end SimState

namespace SimPointer

/-- A call that reads the state. It asserts that there is one. -/
def read (f : SimState → Nat) : SimPointer → Except DriverFault Nat
  | .null => .error .notInitialised
  | .live s => .ok (f s.ds)
  | .dangling => .error .deleted

/-- `from_milliseconds`. -/
def fromMilliseconds (p : SimPointer) (ms : Nat) : Except DriverFault Nat :=
  p.read fun ds => ds.fromMilliseconds ms

/-- `from_microseconds`. -/
def fromMicroseconds (p : SimPointer) (us : Nat) : Except DriverFault Nat :=
  p.read fun ds => ds.fromMicroseconds us

end SimPointer

/-- `Duration::operator+`. -/
def durationAdd (d₁ d₂ : Nat) : Nat := (d₁ + d₂) % 2 ^ 64

/-! ## What a conversion promises -/

/-- What is promised of a conversion `conv` of 32-bit numbers of units, of which a second
has `perSecond`, to ticks at `hz`. -/
structure TickCeiling (hz perSecond : Nat) (conv : Nat → Nat) : Prop where
  exact : ∀ x < 2 ^ 32, (conv x : ℤ) = ⌈(x : ℚ) * hz / perSecond⌉
  mono : ∀ x y, x ≤ y → y < 2 ^ 32 → conv x ≤ conv y
  nonzero : ∀ x < 2 ^ 32, x ≠ 0 → hz ≠ 0 → conv x ≠ 0
  add_le : ∀ x y, x + y < 2 ^ 32 → conv (x + y) ≤ conv x + conv y
  le_add_one : ∀ x y, x + y < 2 ^ 32 → conv x + conv y ≤ conv (x + y) + 1
  /-- The sum is the one that the code computes. -/
  add_fits : ∀ x y, x + y < 2 ^ 32 → durationAdd (conv x) (conv y) = conv x + conv y

/-- What is promised of the two conversions of a driver. -/
structure Conversions (hz : Nat) (fromMilliseconds fromMicroseconds : Nat → Nat) : Prop where
  milliseconds : TickCeiling hz 1000 fromMilliseconds
  microseconds : TickCeiling hz 1000000 fromMicroseconds
  thousand : ∀ x, 1000 * x < 2 ^ 32 → fromMilliseconds x = fromMicroseconds (1000 * x)

section Laws

variable {hz perSecond : Nat} {conv ms us : Nat → Nat}

/-- The rate of a conversion. -/
def rate (hz perSecond : Nat) : ℚ := hz / perSecond

/-- A unit has at most `hz` ticks, so the result fits 64 bits with one to spare. -/
theorem ticks_succ_fits (h : RoundsUp (rate hz perSecond) (2 ^ 32) conv) (hhz : hz < 2 ^ 32)
    (hpos : 0 < perSecond) {x : Nat} (hx : x < 2 ^ 32) : conv x + 1 < 2 ^ 64 := by
  have hone : (1 : ℚ) ≤ perSecond := Nat.one_le_cast.mpr hpos
  have hrate : rate hz perSecond ≤ hz := div_le_self (Nat.cast_nonneg hz) hone
  have hbound : (x : ℚ) * rate hz perSecond ≤ (x * hz : ℕ) := by
    rw [Nat.cast_mul]
    exact mul_le_mul_of_nonneg_left hrate (Nat.cast_nonneg x)
  have hle := h.le_of_mul_le hx hbound
  have hroom := mul_add_lt_mul_self (c := 1) hx hhz (by decide)
  omega

/-- All the laws follow from the rounding. -/
theorem TickCeiling.of_roundsUp (h : RoundsUp (rate hz perSecond) (2 ^ 32) conv)
    (hhz : hz < 2 ^ 32) (hpos : 0 < perSecond) : TickCeiling hz perSecond conv := by
  have hdivisor : (0 : ℚ) < perSecond := Nat.cast_pos.mpr hpos
  constructor
  case exact =>
    intro x hx
    rw [h x hx, rate, mul_div_assoc]
  case mono =>
    intro x y hxy hy
    exact h.mono (div_nonneg (Nat.cast_nonneg hz) hdivisor.le) hxy hy
  case nonzero =>
    intro x hx hx0 hhz0
    have hrate : 0 < rate hz perSecond :=
      div_pos (Nat.cast_pos.mpr (Nat.pos_of_ne_zero hhz0)) hdivisor
    exact Nat.ne_of_gt (h.pos hrate hx (Nat.pos_of_ne_zero hx0))
  case add_le => exact fun x y hxy => h.add_le hxy
  case le_add_one => exact fun x y hxy => h.add_le_succ hxy
  case add_fits =>
    intro x y hxy
    have hsum := h.add_le_succ hxy
    have hfits := ticks_succ_fits h hhz hpos hxy
    exact Nat.mod_eq_of_lt (Nat.lt_of_le_of_lt hsum hfits)

/-- A millisecond is a thousand microseconds, at any frequency. -/
theorem Conversions.of_roundsUp (hms : RoundsUp (rate hz 1000) (2 ^ 32) ms)
    (hus : RoundsUp (rate hz 1000000) (2 ^ 32) us) (hhz : hz < 2 ^ 32) : Conversions hz ms us where
  milliseconds := .of_roundsUp hms hhz (by decide)
  microseconds := .of_roundsUp hus hhz (by decide)
  thousand x hx := by
    have hrate : rate hz 1000 = (1000 : ℕ) * rate hz 1000000 := by
      simp only [rate]
      ring
    exact hms.rescale hus hrate (by omega) hx

end Laws

/-! ## The drivers keep it -/

/-- The rounded division of a product that leaves room for the rounding. -/
theorem ceilDivU64_rounds_up {hz perSecond : Nat} (hhz : hz < 2 ^ 32) (hpos : 0 < perSecond)
    (hsmall : perSecond < 2 ^ 33) :
    RoundsUp (rate hz perSecond) (2 ^ 32)
      fun x => ceilDivU64 (x * hz % 2 ^ 64) perSecond := by
  intro x hx
  have hroom : x * hz + (perSecond - 1) < 2 ^ 64 := mul_add_lt_mul_self hx hhz (by omega)
  rw [natCast_eq_ceil_div (K := ℚ) hpos fun n => ceilDivU64_le_iff hpos hroom, rate,
    Nat.cast_mul, mul_div_assoc]

/-- A driver with a table, at any frequency of 32 bits. -/
theorem DriverState.rounds_up (ds : DriverState) (kind : Kind) (portHz : Nat) {perSecond : Nat}
    (hhz : ds.conversionHz portHz kind < 2 ^ 32) (hpos : 0 < perSecond)
    (hsmall : perSecond < 2 ^ 33) :
    RoundsUp (rate (ds.conversionHz portHz kind) perSecond) (2 ^ 32)
      (ds.ticks kind portHz perSecond) :=
  ceilDivU64_rounds_up hhz hpos hsmall

/-- The simulation driver writes the same sum in another order. -/
theorem SimState.rounds_up (ds : SimState) {bias : Nat} (hhz : ds.tickFrequencyHz < 2 ^ 32)
    (hsmall : bias + 1 < 2 ^ 33) :
    RoundsUp (rate ds.tickFrequencyHz (bias + 1)) (2 ^ 32) (ds.ticks bias (bias + 1)) :=
  ceilDivU64_rounds_up hhz (Nat.succ_pos bias) hsmall

theorem DriverState.conversions (ds : DriverState) (portHz : Nat) (hhz : ds.frequencyHz < 2 ^ 32) :
    Conversions ds.frequencyHz (ds.fromMilliseconds .tickless portHz)
      (ds.fromMicroseconds .tickless portHz) :=
  .of_roundsUp (ds.rounds_up .tickless portHz hhz (by decide) (by decide))
    (ds.rounds_up .tickless portHz hhz (by decide) (by decide)) hhz

theorem SimState.conversions (ds : SimState) (hhz : ds.tickFrequencyHz < 2 ^ 32) :
    Conversions ds.tickFrequencyHz ds.fromMilliseconds ds.fromMicroseconds :=
  .of_roundsUp (ds.rounds_up hhz (by decide)) (ds.rounds_up hhz (by decide)) hhz

/-! ## From `initialise` on -/

/-- A driver with a table keeps the frequency of `initialise`, whatever is called. -/
theorem slot_run_frequencyHz {kind : Kind} {s s' : Driver} (hfresh : (slotLifecycle kind).fresh s)
    {c : Cycle} (hrun : (slotLifecycle kind).run s c.begun = .ok s') :
    s'.ds.frequencyHz = c.frequencyHz := by
  rw [slotLifecycle_begun hfresh] at hrun
  refine Lifecycle.run_ops (I := fun s => s.ds.frequencyHz = c.frequencyHz) ?_ rfl hrun
  intro s₁ s₂ l hs hcall
  exact (Driver.step_move hcall).frequencyHz_eq.trans hs

/-- So does the simulation driver, and its state is there. -/
theorem sim_run_frequencyHz {p : SimPointer} {c : Cycle}
    (hrun : simLifecycle.run .null c.begun = .ok p) :
    ∃ s, p = .live s ∧ s.ds.tickFrequencyHz = c.frequencyHz := by
  have hbegun : simLifecycle.run .null c.begun =
      simLifecycle.run (.live (Sim.initial c.frequencyHz)) (c.ops.map .op) := rfl
  rw [hbegun] at hrun
  refine Lifecycle.run_ops
    (I := fun p => ∃ s, p = .live s ∧ s.ds.tickFrequencyHz = c.frequencyHz) ?_ ⟨_, rfl, rfl⟩ hrun
  rintro - p' l ⟨s, rfl, hs⟩ hcall
  have hcall : (s.step l).map SimPointer.live = .ok p' := hcall
  cases hstep : s.step l with
  | error e =>
    rw [hstep] at hcall
    cases hcall
  | ok s₁ =>
    rw [hstep] at hcall
    cases hcall
    exact ⟨s₁, rfl, (Sim.step_move hstep).tickFrequencyHz_eq.trans hs⟩

/-- **The conversions are exact ceilings.** For every 32-bit frequency, in every state of
the tickless and of the simulation driver with that frequency: the ticks are
`⌈x * hz / 1000⌉` and `⌈x * hz / 1000000⌉`, with the laws of a ceiling. It is the frequency
passed to `initialise`, after any calls; and the assertion of the simulation driver holds
then. -/
theorem conversions_exact (hz : Nat) (hhz : hz < 2 ^ 32) :
    (∀ (ds : DriverState) (portHz : Nat), ds.frequencyHz = hz →
      Conversions hz (ds.fromMilliseconds .tickless portHz)
        (ds.fromMicroseconds .tickless portHz)) ∧
    (∀ ds : SimState, ds.tickFrequencyHz = hz →
      Conversions hz ds.fromMilliseconds ds.fromMicroseconds) ∧
    (∀ (s s' : Driver) (ops : List Label), (slotLifecycle .tickless).fresh s →
      (slotLifecycle .tickless).run s (Cycle.begun ⟨hz, ops⟩) = .ok s' →
      s'.ds.frequencyHz = hz) ∧
    ∀ (p : SimPointer) (ops : List Label),
      simLifecycle.run .null (Cycle.begun ⟨hz, ops⟩) = .ok p →
      ∃ ds : SimState, ds.tickFrequencyHz = hz ∧
        (∀ ms, p.fromMilliseconds ms = .ok (ds.fromMilliseconds ms)) ∧
        ∀ us, p.fromMicroseconds us = .ok (ds.fromMicroseconds us) := by
  refine ⟨?_, ?_, ?_, ?_⟩
  · rintro ds portHz rfl
    exact ds.conversions portHz hhz
  · rintro ds rfl
    exact ds.conversions hhz
  · intro s s' ops hfresh hrun
    exact slot_run_frequencyHz hfresh hrun
  · intro p ops hrun
    obtain ⟨s, rfl, hs⟩ := sim_run_frequencyHz hrun
    exact ⟨s.ds, hs, fun _ => rfl, fun _ => rfl⟩

/-- At 1 kHz: 1001 microseconds are two ticks in both drivers, and the conversions have
their laws after a `start` and some time. -/
theorem one_kilohertz_exact :
    (({ frequencyHz := 1000 } : DriverState).fromMicroseconds .tickless 0 1001 = 2 ∧
      Conversions 1000 (({ frequencyHz := 1000 } : DriverState).fromMilliseconds .tickless 0)
        (({ frequencyHz := 1000 } : DriverState).fromMicroseconds .tickless 0)) ∧
    (({ tickFrequencyHz := 1000 } : SimState).fromMicroseconds 1001 = 2 ∧
      Conversions 1000 ({ tickFrequencyHz := 1000 } : SimState).fromMilliseconds
        ({ tickFrequencyHz := 1000 } : SimState).fromMicroseconds) ∧
    (∃ s, (slotLifecycle .tickless).run { ds := {}, port := {} }
      (Cycle.begun ⟨1000, [.start, .advance 5]⟩) = .ok s ∧ s.ds.frequencyHz = 1000) ∧
    ∃ p, simLifecycle.run .null (Cycle.begun ⟨1000, [.start, .advance 5]⟩) = .ok p ∧
      p.fromMicroseconds 1001 = .ok 2 ∧ ∃ ds : SimState, ds.tickFrequencyHz = 1000 ∧
        (∀ ms, p.fromMilliseconds ms = .ok (ds.fromMilliseconds ms)) ∧
        ∀ us, p.fromMicroseconds us = .ok (ds.fromMicroseconds us) := by
  obtain ⟨htickless, hsim, hticklessRun, hsimRun⟩ := conversions_exact 1000 (by decide)
  refine ⟨⟨by decide, htickless _ 0 rfl⟩, ⟨by decide, hsim _ rfl⟩, ⟨_, rfl, ?_⟩, ⟨_, rfl, rfl, ?_⟩⟩
  · exact hticklessRun { ds := {}, port := {} } _ [.start, .advance 5] ⟨rfl, rfl, rfl⟩ rfl
  · exact hsimRun _ [.start, .advance 5] rfl

/-- The largest argument at the largest frequency. -/
example :
    ({ frequencyHz := 2 ^ 32 - 1 } : DriverState).fromMilliseconds .tickless 0 (2 ^ 32 - 1) =
      18446744065119618 ∧ (2 ^ 32 - 1) * (2 ^ 32 - 1) = 18446744065119617025 := by
  decide

end Cortos.Time
