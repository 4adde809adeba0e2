import Cortos.Time.ExactlyOnce
import Cortos.Time.Simulation

/-!
# After a cancel

A client that has cancelled a callback wants to release the callback's argument. That
is safe if the callback is not started any more, whatever `cancel` returned:
`NeverAfterCancel`.

The service has this property, so a driver has it as long as it provides the service.
The periodic and the tickless driver free a slot just before they start its callback,
and a cancel from another callback of the same interrupt still finds the slots that
come later. The simulation driver has taken the due events out of the vector before it
starts the first one: a cancel does not find them, returns false, and they are started
nevertheless (`cancelled_callback_runs`).

In all three drivers the ids of pending callbacks also have to be distinct, which the
32-bit counter does not guarantee for ever.
-/

namespace Cortos.Time

open Lib

/-- Once a cancel of a callback has returned, the callback is not started; and if the
cancel returned false, the callback had been started or cancelled before. -/
def NeverAfterCancel (log : List Event) : Prop :=
  ∀ pre post h r, log = pre ++ .cancelled h r :: post →
    ∀ t tp, .scheduled t h tp ∈ pre → h.id ≠ 0 →
      ¬ Invoked post t ∧ (r = false → Invoked pre t ∨ .cancelled h true ∈ pre)

theorem Service.Inv.neverAfterCancel {a : Service} (h : a.Inv) : NeverAfterCancel a.log := by
  intro pre post h' r hlog t tp hs hid
  refine ⟨(h.silent pre post h' r hlog t tp hs hid).2, ?_⟩
  rintro rfl
  exact h.refused pre post h' hlog t tp hs hid

/-- A call of `schedule_at` finds an id that no filled slot has. -/
def IdsDistinct (s : Driver) (l : Label) : Prop := l.schedules = true → IdFree s

instance {s : Driver} {l : Label} : Decidable (IdsDistinct s l) :=
  inferInstanceAs (Decidable (_ → _))

theorem slot_refines {kind : Kind} {frequencyHz : Nat} {s : Driver}
    (h : (slotSystem kind frequencyHz).ReachVia IdsDistinct s) : ∃ a, Refines s a := by
  refine Lts.ReachVia.invariant (I := fun s => ∃ a, Refines s a) ?_ ?_ h
  · rintro s ⟨now, -, rfl⟩
    exact ⟨_, .initial kind frequencyHz now⟩
  · rintro s l s' - ⟨a, hr⟩ hids hstep
    obtain ⟨a', -, hr'⟩ := hr.move (Driver.step_move hstep) hids
    exact ⟨a', hr'⟩

theorem sim_refines {frequencyHz : Nat} {s : Sim}
    (h : (simSystem frequencyHz).ReachVia SimCondition s) : ∃ a, SimRefines s a := by
  refine Lts.ReachVia.invariant (I := fun s => ∃ a, SimRefines s a) ?_ ?_ h
  · rintro s rfl
    exact ⟨_, .initial frequencyHz⟩
  · rintro s l s' - ⟨a, hr⟩ hcond hstep
    exact hr.step hcond hstep

/-- **After cancel, never called.** The periodic and the tickless driver, in every run in
which the ids of pending callbacks are distinct; the simulation driver, if besides no
cancel asks for a due event that has been copied and not been started. -/
theorem after_cancel_never_called (kind : Kind) (frequencyHz : Nat) :
    (∀ s, (slotSystem kind frequencyHz).ReachVia IdsDistinct s → NeverAfterCancel s.log) ∧
    ∀ s, (simSystem frequencyHz).ReachVia SimCondition s → NeverAfterCancel s.log := by
  constructor
  · intro s h
    obtain ⟨a, hr⟩ := slot_refines h
    exact hr.log ▸ hr.inv.neverAfterCancel
  · intro s h
    obtain ⟨a, hr⟩ := sim_refines h
    exact hr.log ▸ hr.inv.neverAfterCancel

/-- Two callbacks are due at 10. The first one, when it is started, cancels the
second. -/
def cancelSibling : List Label :=
  [.scheduleAt 10 (some 1) 0, .scheduleAt 10 (some 2) 0, .advance 10, .interrupt, .scan,
    .cancel ⟨2⟩, .callbackReturns, .scan]

/-- In the simulation driver the cancel returns false and the second callback is started
afterwards. In the tickless driver it returns true and the callback is not started. -/
theorem cancelled_callback_runs :
    (∃ s, (simSystem 1000).ReachVia (fun _ _ => True) s ∧
      s.log = [.scheduled 0 ⟨1⟩ 10, .scheduled 1 ⟨2⟩ 10, .entered 10, .invoked 0 1 0 10,
        .cancelled ⟨2⟩ false, .invoked 1 2 0 10] ∧
      ¬ NeverAfterCancel s.log) ∧
    ∃ s, (slotSystem .tickless 1000).ReachVia (fun _ _ => True) s ∧
      s.log = [.scheduled 0 ⟨1⟩ 10, .scheduled 1 ⟨2⟩ 10, .entered 10, .invoked 0 1 0 10,
        .cancelled ⟨2⟩ true] := by
  constructor
  · have hrun : (simSystem 1000).runsTo (fun _ _ => True) (fun s => s.log =
        [.scheduled 0 ⟨1⟩ 10, .scheduled 1 ⟨2⟩ 10, .entered 10, .invoked 0 1 0 10,
          .cancelled ⟨2⟩ false, .invoked 1 2 0 10]) (Sim.initial 1000) cancelSibling = true := by
      decide +kernel
    obtain ⟨s, hs, hlog⟩ := Lts.ReachVia.runsTo (.init rfl) hrun
    refine ⟨s, hs, hlog, fun hnever => ?_⟩
    have hsilent := (hnever [.scheduled 0 ⟨1⟩ 10, .scheduled 1 ⟨2⟩ 10, .entered 10,
      .invoked 0 1 0 10] [.invoked 1 2 0 10] ⟨2⟩ false hlog 1 10 (by decide) (by decide)).1
    exact hsilent (Invoked.mem (List.mem_singleton_self _))
  · have hrun : (slotSystem .tickless 1000).runsTo (fun _ _ => True) (fun s => s.log =
        [.scheduled 0 ⟨1⟩ 10, .scheduled 1 ⟨2⟩ 10, .entered 10, .invoked 0 1 0 10,
          .cancelled ⟨2⟩ true]) (Driver.initial .tickless 1000 0) cancelSibling = true := by
      decide +kernel
    have hinit : (slotSystem .tickless 1000).init (Driver.initial .tickless 1000 0) :=
      ⟨0, by decide, rfl⟩
    exact Lts.ReachVia.runsTo (.init hinit) hrun

/-- A callback that cancels itself, and another one that is due later. -/
def cancelSelf : List Label :=
  [.scheduleAt 10 (some 1) 0, .scheduleAt 20 (some 2) 0, .advance 10, .interrupt, .scan,
    .cancel ⟨1⟩, .cancel ⟨2⟩, .callbackReturns, .scan]

theorem after_cancel_never_called_self :
    (∃ s, (slotSystem .periodic 1000).ReachVia IdsDistinct s ∧ s.log.length = 5 ∧
      NeverAfterCancel s.log) ∧
    ∃ s, (simSystem 1000).ReachVia SimCondition s ∧
      s.log = [.scheduled 0 ⟨1⟩ 10, .scheduled 1 ⟨2⟩ 20, .entered 10, .invoked 0 1 0 10,
        .cancelled ⟨1⟩ false, .cancelled ⟨2⟩ true, .returned] ∧ NeverAfterCancel s.log := by
  constructor
  · have hrun : (slotSystem .periodic 1000).runsTo IdsDistinct (fun s => s.log.length = 5)
        (Driver.initial .periodic 1000 0) cancelSibling = true := by
      decide +kernel
    have hinit : (slotSystem .periodic 1000).init (Driver.initial .periodic 1000 0) :=
      ⟨0, by decide, rfl⟩
    obtain ⟨s, hs, hlog⟩ := Lts.ReachVia.runsTo (.init hinit) hrun
    exact ⟨s, hs, hlog, (after_cancel_never_called .periodic 1000).1 s hs⟩
  · have hrun : (simSystem 1000).runsTo SimCondition (fun s => s.log =
        [.scheduled 0 ⟨1⟩ 10, .scheduled 1 ⟨2⟩ 20, .entered 10, .invoked 0 1 0 10,
          .cancelled ⟨1⟩ false, .cancelled ⟨2⟩ true, .returned]) (Sim.initial 1000) cancelSelf =
        true := by
      decide +kernel
    obtain ⟨s, hs, hlog⟩ := Lts.ReachVia.runsTo (.init rfl) hrun
    exact ⟨s, hs, hlog, (after_cancel_never_called .periodic 1000).2 s hs⟩

end Cortos.Time
