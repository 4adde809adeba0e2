import Cortos.Time.Simulation

/-!
# From `initialise` to `finalise`

A client initialises its driver, uses it, stops it and finalises it, any number of
times. `Lifecycle.Ok` is what the interface promises about that: no assertion of the
life cycle fails, `finalise` leads back to where the driver was before `initialise`,
and `initialise` is refused on an initialised driver.

- The periodic driver keeps the promise.
- The tickless driver never sets `initialised`, so `finalise` fails and a second
  `initialise` is accepted.
- The simulation driver deletes its state and keeps the pointer, so the next
  `initialise` fails.
-/

namespace Cortos.Time

open Lib

/-- A call of the client. -/
inductive Lifecall where
  | initialise (frequencyHz : Nat)
  | finalise
  | op (l : Label)

/-- A driver with its life cycle; `fresh` is the state before the first
`initialise`. -/
structure Lifecycle (σ : Type) where
  call : σ → Lifecall → Except DriverFault σ
  fresh : σ → Prop

/-! ## The three drivers -/

/-- `finalise` of the periodic and of the tickless driver. -/
def DriverState.finalise (ds : DriverState) : Except DriverFault DriverState :=
  if ds.initialised then .ok {} else .error .notInitialised

/-- The periodic or the tickless driver. A client finalises it outside `on_timer_isr`. -/
def slotLifecycle (kind : Kind) : Lifecycle Driver where
  call
    | s, .initialise frequencyHz => (s.ds.initialise kind frequencyHz).map fun ds => { s with ds }
    | s, .finalise =>
      if s.isr = .idle then s.ds.finalise.map fun ds => { s with ds } else .error .disabled
    | s, .op l => s.step kind l
  fresh s := s.ds = {} ∧ s.isr = .idle ∧ s.port.irqEnabled = false

/-- `sim::ds`. -/
inductive SimPointer where
  | null
  | live (s : Sim)
  /-- The state it pointed to has been deleted. -/
  | dangling

namespace SimPointer

def initialise (frequencyHz : Nat) : SimPointer → Except DriverFault SimPointer
  | .null => .ok (.live (Sim.initial frequencyHz))
  | .live _ | .dangling => .error .alreadyInitialised

/-- `finalise`; it does not write the pointer. -/
def finalise : SimPointer → Except DriverFault SimPointer
  | .null => .error .notInitialised
  | .live s => if s.isr = .idle then .ok .dangling else .error .disabled
  | .dangling => .error .deleted

/-- Any other call. -/
def op (l : Label) : SimPointer → Except DriverFault SimPointer
  | .null => .error .notInitialised
  | .live s => (s.step l).map .live
  | .dangling => .error .deleted

end SimPointer

/-- The simulation driver, in `Virtual` mode. -/
def simLifecycle : Lifecycle SimPointer where
  call
    | p, .initialise frequencyHz => p.initialise frequencyHz
    | p, .finalise => p.finalise
    | p, .op l => p.op l
  fresh p := p = .null

/-! ## What the interface promises -/

/-- The assertions of the life cycle, and the use of a deleted state. -/
def DriverFault.isLifecycle : DriverFault → Bool
  | .alreadyInitialised | .noFrequency | .notInitialised | .deleted => true
  | .disabled | .nullCallback => false

/-- What a call makes of `started`. -/
def Label.startedAfter (started : Bool) : Label → Bool
  | .start => true
  | .stop => false
  | _ => started

/-- One use of the driver: the frequency and the calls. -/
structure Cycle where
  frequencyHz : Nat
  ops : List Label

namespace Cycle

/-- The frequency is positive, and the last `start` has been stopped. -/
def Proper (c : Cycle) : Prop :=
  0 < c.frequencyHz ∧ c.ops.foldl Label.startedAfter false = false

/-- The cycle up to `finalise`. -/
def begun (c : Cycle) : List Lifecall := .initialise c.frequencyHz :: c.ops.map .op

def calls (c : Cycle) : List Lifecall := c.begun ++ [.finalise]

end Cycle

namespace Lifecycle

variable {σ : Type}

/-- The calls one after the other. -/
def run (L : Lifecycle σ) : σ → List Lifecall → Except DriverFault σ
  | s, [] => .ok s
  | s, c :: cs =>
    match L.call s c with
    | .ok s' => L.run s' cs
    | .error e => .error e

theorem run_append (L : Lifecycle σ) (s : σ) (cs cs' : List Lifecall) :
    L.run s (cs ++ cs') =
      match L.run s cs with
      | .ok s' => L.run s' cs'
      | .error e => .error e := by
  induction cs generalizing s with
  | nil => rfl
  | cons c cs ih =>
    rw [List.cons_append, run, run]
    cases L.call s c with
    | ok s' => exact ih s'
    | error e => rfl

/-- What the calls between `initialise` and `finalise` keep. -/
theorem run_ops {L : Lifecycle σ} {I : σ → Prop} {s s' : σ} {ops : List Label}
    (hop : ∀ {s s' l}, I s → L.call s (.op l) = .ok s' → I s') (hs : I s)
    (hrun : L.run s (ops.map .op) = .ok s') : I s' := by
  induction ops generalizing s with
  | nil =>
    cases hrun
    exact hs
  | cons l ops ih =>
    rw [List.map_cons, run] at hrun
    cases hcall : L.call s (.op l) with
    | ok s₁ =>
      rw [hcall] at hrun
      exact ih (hop hs hcall) hrun
    | error e =>
      rw [hcall] at hrun
      cases hrun

/-- The promise. -/
def Ok (L : Lifecycle σ) : Prop :=
  ∀ s, L.fresh s → ∀ cycles : List Cycle, (∀ c ∈ cycles, c.Proper) →
    (∀ e, L.run s (cycles.flatMap Cycle.calls) = .error e → e.isLifecycle = false) ∧
    (∀ s', L.run s (cycles.flatMap Cycle.calls) = .ok s' → L.fresh s') ∧
    ∀ (c : Cycle) (s' : σ), 0 < c.frequencyHz →
      L.run s (cycles.flatMap Cycle.calls ++ c.begun) = .ok s' →
      ∀ frequencyHz, L.call s' (.initialise frequencyHz) = .error .alreadyInitialised

end Lifecycle

/-! ## The periodic driver -/

variable {s s' : Driver} {l : Label} {kind : Kind}

theorem DriverState.rearm_irqEnabled (ds : DriverState) (p : Port) :
    (ds.rearm kind p).irqEnabled = p.irqEnabled := by
  cases kind with
  | periodic => rfl
  | tickless =>
    show (if _ then p.disarm else p.arm ds.earliest).irqEnabled = p.irqEnabled
    unfold Port.arm
    split_ifs
    all_goals rfl

/-- A fresh driver is initialised first. -/
theorem slotLifecycle_begun (hfresh : (slotLifecycle kind).fresh s) (c : Cycle) :
    (slotLifecycle kind).run s c.begun =
      (slotLifecycle kind).run
        { s with ds :=
          { initialised := decide (kind = .periodic), frequencyHz := c.frequencyHz } }
        (c.ops.map .op) := by
  simp only [Cycle.begun, Lifecycle.run, slotLifecycle, hfresh.1]
  rfl

/-- What a driver is between `initialise` and `finalise`. -/
structure InUse (s : Driver) : Prop where
  initialised : s.ds.initialised = true
  frequency : 0 < s.ds.frequencyHz
  irq : s.port.irqEnabled = s.ds.started

/-- The calls other than `start` and `stop`. -/
theorem InUse.move (h : InUse s) (hmove : Move kind s l s') (hstart : l ≠ .start)
    (hstop : l ≠ .stop) : InUse s' ∧ s'.ds.started = s.ds.started := by
  obtain ⟨hinit, hfreq, hirq⟩ := h
  cases hmove with
  | schedule | cancel | leave =>
    exact ⟨⟨hinit, hfreq, (DriverState.rearm_irqEnabled _ _).trans hirq⟩, rfl⟩
  | start => exact absurd rfl hstart
  | stop => exact absurd rfl hstop
  | stay hl => exact (hl.elim hstart hstop).elim
  | _ => exact ⟨⟨hinit, hfreq, hirq⟩, rfl⟩

/-- The calls leave `initialised` and the frequency alone, and `start` and `stop` set
`started`. -/
theorem InUse.step (h : InUse s) (hs : s.step kind l = .ok s') :
    InUse s' ∧ s'.ds.started = l.startedAfter s.ds.started := by
  cases l with
  | start =>
    obtain ⟨hinit, hfreq, hirq⟩ := h
    simp only [Driver.step, Driver.start] at hs
    split_ifs at hs with hcall hstarted
    · cases hs
      exact ⟨⟨hinit, hfreq, hirq⟩, hstarted⟩
    · cases hs
      exact ⟨⟨hinit, hfreq, rfl⟩, rfl⟩
  | stop =>
    obtain ⟨hinit, hfreq, hirq⟩ := h
    simp only [Driver.step, Driver.stop] at hs
    split_ifs at hs with hcall hstarted
    · cases hs
      refine ⟨⟨hinit, hfreq, ?_⟩, rfl⟩
      cases kind <;> rfl
    · cases hs
      exact ⟨⟨hinit, hfreq, hirq⟩, Bool.eq_false_iff.mpr hstarted⟩
  | _ => exact h.move (Driver.step_move hs) (by simp) (by simp)

/-- With a positive frequency no assertion of the life cycle fails. -/
theorem InUse.not_lifecycle (h : InUse s) {e : DriverFault} (hs : s.step kind l = .error e) :
    e.isLifecycle = false := by
  cases l with
  | scheduleAt | cancel | interrupt | stop =>
    simp only [Driver.step] at hs
    split_ifs at hs
    cases hs
    rfl
  | scan =>
    simp only [Driver.step] at hs
    split at hs
    · split_ifs at hs
      simp only [Driver.visit] at hs
      split_ifs at hs
      split at hs
      · cases hs
        rfl
      · cases hs
    · cases hs
      rfl
  | callbackReturns =>
    simp only [Driver.step] at hs
    split at hs
    · cases hs
    · cases hs
      rfl
  | advance => cases hs
  | start =>
    simp only [Driver.step, Driver.start] at hs
    have hfreq : ¬ (kind = .periodic ∧ s.ds.frequencyHz = 0) := fun hz => by
      have := h.frequency
      omega
    split_ifs at hs
    cases hs
    rfl

/-- **Any sequence of calls** between `initialise` and `finalise`. -/
theorem InUse.run (h : InUse s) (ops : List Label) :
    (∀ e, (slotLifecycle kind).run s (ops.map .op) = .error e → e.isLifecycle = false) ∧
    ∀ s', (slotLifecycle kind).run s (ops.map .op) = .ok s' →
      InUse s' ∧ s'.ds.started = ops.foldl Label.startedAfter s.ds.started := by
  induction ops generalizing s with
  | nil =>
    refine ⟨nofun, fun s' hs => ?_⟩
    cases hs
    exact ⟨h, rfl⟩
  | cons l ops ih =>
    have hcall : (slotLifecycle kind).call s (.op l) = s.step kind l := rfl
    cases hstep : s.step kind l with
    | error e =>
      simp only [List.map_cons, Lifecycle.run, hcall, hstep]
      refine ⟨fun e' he => ?_, nofun⟩
      cases he
      exact h.not_lifecycle hstep
    | ok s₁ =>
      obtain ⟨h₁, hstarted⟩ := h.step hstep
      simp only [List.map_cons, Lifecycle.run, hcall, hstep, List.foldl_cons, ← hstarted]
      exact ih h₁

/-- A fresh periodic driver that is initialised, up to `finalise`. -/
theorem InUse.begun (hfresh : (slotLifecycle .periodic).fresh s) {c : Cycle}
    (hpos : 0 < c.frequencyHz) :
    (∀ e, (slotLifecycle .periodic).run s c.begun = .error e → e.isLifecycle = false) ∧
    ∀ s', (slotLifecycle .periodic).run s c.begun = .ok s' →
      InUse s' ∧ s'.ds.started = c.ops.foldl Label.startedAfter false := by
  rw [slotLifecycle_begun hfresh]
  exact InUse.run ⟨rfl, hpos, hfresh.2.2⟩ c.ops

/-- **One cycle** of the periodic driver. -/
theorem periodic_cycle (hfresh : (slotLifecycle .periodic).fresh s) {c : Cycle} (hc : c.Proper) :
    (∀ e, (slotLifecycle .periodic).run s c.calls = .error e → e.isLifecycle = false) ∧
    ∀ s', (slotLifecycle .periodic).run s c.calls = .ok s' →
      (slotLifecycle .periodic).fresh s' := by
  obtain ⟨herr, hok⟩ := InUse.begun hfresh hc.1
  rw [Cycle.calls, Lifecycle.run_append]
  cases hrun : (slotLifecycle .periodic).run s c.begun with
  | error e =>
    refine ⟨fun e' he => ?_, nofun⟩
    cases he
    exact herr e hrun
  | ok s₁ =>
    obtain ⟨h₁, hstarted⟩ := hok s₁ hrun
    by_cases hidle : s₁.isr = .idle
    · have hfin : (slotLifecycle .periodic).call s₁ .finalise = .ok { s₁ with ds := {} } := by
        simp only [slotLifecycle, hidle, if_true, DriverState.finalise, h₁.initialised]
        rfl
      simp only [Lifecycle.run, hfin]
      refine ⟨nofun, fun s' hs => ?_⟩
      cases hs
      refine ⟨rfl, hidle, ?_⟩
      show s₁.port.irqEnabled = false
      rw [h₁.irq, hstarted, hc.2]
    · have hfin : (slotLifecycle .periodic).call s₁ .finalise = .error .disabled := by
        simp only [slotLifecycle, hidle, if_false]
      simp only [Lifecycle.run, hfin]
      refine ⟨fun e he => ?_, nofun⟩
      cases he
      rfl

/-- **Any number of cycles** of the periodic driver. -/
theorem periodic_cycles (hfresh : (slotLifecycle .periodic).fresh s) (cycles : List Cycle)
    (hcycles : ∀ c ∈ cycles, c.Proper) :
    (∀ e, (slotLifecycle .periodic).run s (cycles.flatMap Cycle.calls) = .error e →
      e.isLifecycle = false) ∧
    ∀ s', (slotLifecycle .periodic).run s (cycles.flatMap Cycle.calls) = .ok s' →
      (slotLifecycle .periodic).fresh s' := by
  induction cycles generalizing s with
  | nil =>
    refine ⟨nofun, fun s' hs => ?_⟩
    cases hs
    exact hfresh
  | cons c cycles ih =>
    obtain ⟨herr, hok⟩ := periodic_cycle hfresh (hcycles c List.mem_cons_self)
    rw [List.flatMap_cons, Lifecycle.run_append]
    cases hrun : (slotLifecycle .periodic).run s c.calls with
    | error e =>
      refine ⟨fun e' he => ?_, nofun⟩
      cases he
      exact herr e hrun
    | ok s₁ => exact ih (hok s₁ hrun) fun c' hc' => hcycles c' (List.mem_cons_of_mem _ hc')

theorem periodic_ok : (slotLifecycle .periodic).Ok := by
  intro s hfresh cycles hcycles
  obtain ⟨herr, hok⟩ := periodic_cycles hfresh cycles hcycles
  refine ⟨herr, hok, fun c s' hpos hrun frequencyHz => ?_⟩
  rw [Lifecycle.run_append] at hrun
  cases hcyc : (slotLifecycle .periodic).run s (cycles.flatMap Cycle.calls) with
  | error e =>
    rw [hcyc] at hrun
    cases hrun
  | ok s₁ =>
    rw [hcyc] at hrun
    have hinit := ((InUse.begun (hok s₁ hcyc) hpos).2 s' hrun).1.initialised
    simp only [slotLifecycle, DriverState.initialise, hinit, if_true]
    rfl

/-! ## The other two -/

/-- An unused cycle. -/
def Cycle.unused : Cycle := ⟨1000, []⟩

theorem Cycle.unused_proper : Cycle.unused.Proper := ⟨by decide, rfl⟩

/-- **The life cycle of the drivers**: of the two drivers with a table the periodic one
keeps the promise and the tickless one does not; neither does the simulation driver. -/
theorem lifecycle_ok_iff (kind : Kind) :
    ((slotLifecycle kind).Ok ↔ kind = .periodic) ∧ ¬ simLifecycle.Ok := by
  refine ⟨⟨fun hok => ?_, ?_⟩, fun hok => ?_⟩
  · cases kind with
    | periodic => rfl
    | tickless =>
      have := (hok { ds := {}, port := {} } ⟨rfl, rfl, rfl⟩ [Cycle.unused]
        (by simp [Cycle.unused_proper])).1 .notInitialised rfl
      cases this
  · rintro rfl
    exact periodic_ok
  · have := (hok .null rfl [Cycle.unused] (by simp [Cycle.unused_proper])).2.1 .dangling rfl
    cases this

/-- The first cycle of the tickless driver and the second one of the simulation driver. -/
theorem lifecycle_fails :
    (slotLifecycle .tickless).run { ds := {}, port := {} } [.initialise 1000, .finalise] =
      .error .notInitialised ∧
    (∃ s, (slotLifecycle .tickless).run { ds := {}, port := {} }
      [.initialise 1000, .initialise 2000] = .ok s) ∧
    simLifecycle.run .null [.initialise 1000, .finalise, .initialise 1000] =
      .error .alreadyInitialised :=
  ⟨rfl, ⟨_, rfl⟩, rfl⟩

end Cortos.Time
