import Cortos.Machine.Observation

/-!
# Spinlocks and context switches

`Spinlock::lock` counts up the `preempt_disable_depth` of the core and `unlock`
counts it down, but nothing reads the counter: `reschedule` switches threads
whatever it is. A thread that holds a spinlock and makes a kernel call that gives
up the core is switched out.

- `switched_out_run`: a run in which that happens;
- `no_switch_while_disabled_iff`: the exact condition under which a run does not
  replace the current thread of a core whose counter is positive.
-/

namespace Cortos

open Lib

variable {cfg : Config} {m m' : Machine} {a a' : Life} {c : Nat} {t x u : ThreadRef}

/-- No core that has preemption disabled loses its current thread. -/
def NoSwitchWhileDisabled (m m' : Machine) : Prop :=
  ∀ c t, m.kernel.current c = some t → 0 < (m.kernel.schedulers c).preemptDisableDepth →
    m'.kernel.current c = some t

/-- When `reschedule` reaches its switch on a core that has preemption disabled,
the current thread is Running and no ready thread of the core has its priority or
is more urgent. -/
def SwitchesToItself (m : Machine) : Label → Prop :=
  Label.OnNext fun c _ => m.core c = .switch →
    0 < (m.kernel.schedulers c).preemptDisableDepth →
    ∀ t ∈ m.kernel.current c, m.kernel.state t = .running ∧
      ∀ p ≤ m.kernel.priority t, m.kernel.readyQueue c p = []

instance (m : Machine) : DecidablePred (SwitchesToItself m) :=
  inferInstanceAs (DecidablePred (Label.OnNext _))

/-- The idle threads have the least urgent priority. -/
def IdleLast (cfg : Config) (m : Machine) : Prop :=
  ∀ c, m.kernel.priority (.idle c) = cfg.maxPriorities - 1

theorem Trans.idleLast {l : Label} (ht : Trans cfg m a l m' a') (hI : IdleLast cfg m) :
    IdleLast cfg m' := fun c =>
  (congrArg Prod.fst (ht.fixed (u := .idle c) nofun)).trans (hI c)

/-- An idle thread is selected again when the ready matrix is empty. -/
theorem Sim.selects_idle_iff (h : Sim cfg m a) (hlast : IdleLast cfg m) {next : ThreadRef}
    (hsel : a.Selects c next a') :
    next = .idle c ↔ ∀ p ≤ m.kernel.priority (.idle c), a.queue (c, p) = [] := by
  cases hsel with
  | idle hempty => exact iff_of_true rfl fun p _ => hempty p
  | @head p _ rest hq hfirst =>
    obtain ⟨-, hidle, -, hp⟩ := (h.queued c p next).mp (by simp [hq])
    have hlt := (h.thread next).priority_lt
    refine iff_of_false ?_ fun hempty => ?_
    · rintro rfl
      cases hidle
    · have := hempty p (by rw [hlast]; omega)
      simp [hq] at this

/-- A Running thread that is put back is selected again when no ready thread has
its priority or is more urgent. -/
theorem Life.selects_enqueue_iff {p : Nat} {next : ThreadRef} (hnot : t ∉ a.queue (c, p))
    (hsel : (a.enqueue c p t).Selects c next a')
    (hunique : ∀ q, t ∈ (a.enqueue c p t).queue (c, q) → q = p) :
    next = t ↔ ∀ q ≤ p, a.queue (c, q) = [] := by
  have hp : (a.enqueue c p t).queue (c, p) = a.queue (c, p) ++ [t] := Function.update_self ..
  have hother : ∀ q, q ≠ p → (a.enqueue c p t).queue (c, q) = a.queue (c, q) := fun q hq =>
    Function.update_of_ne (fun he => hq (Prod.ext_iff.mp he).2) _ _
  cases hsel with
  | idle hempty =>
    have := hempty p
    simp [hp] at this
  | @head r _ rest hq hfirst =>
    constructor
    · rintro rfl q hqp
      obtain rfl : r = p := hunique r (by simp [hq])
      rcases Nat.lt_or_eq_of_le hqp with hlt | rfl
      · rw [← hother q (Nat.ne_of_lt hlt)]
        exact hfirst q hlt
      · -- the queue was empty, or its head would be the outgoing thread
        rw [hp] at hq
        cases hqueue : a.queue (c, q) with
        | nil => rfl
        | cons v vs =>
          rw [hqueue, List.cons_append] at hq
          rw [hqueue, (List.cons.inj hq).1] at hnot
          exact absurd List.mem_cons_self hnot
    · intro hempty
      obtain rfl : r = p := by
        rcases Nat.lt_trichotomy r p with hlt | rfl | hgt
        · rw [hother r (Nat.ne_of_lt hlt), hempty r (Nat.le_of_lt hlt)] at hq
          cases hq
        · rfl
        · have := hfirst p hgt
          simp [hp] at this
      rw [hp, hempty r (Nat.le_refl r)] at hq
      exact (List.cons.inj hq).1.symm

/-- `reschedule` selects the outgoing thread again exactly when it is Running and
no ready thread has its priority or is more urgent. -/
theorem Sim.selects_self_iff (h : Sim cfg m a) (hlast : IdleLast cfg m) (hcore : m.core c = .switch)
    (hcur : m.kernel.current c = some t) (hnr : a.phase t ≠ .ready) {next : ThreadRef}
    (hsel : (a.rotated c (m.kernel.priority t) t).Selects c next a') :
    next = t ↔ a.phase t = .running ∧ ∀ p ≤ m.kernel.priority t, a.queue (c, p) = [] := by
  have hnot : ∀ i, t ∉ a.queue i := fun i hi => hnr ((h.queued i.1 i.2 t).mp hi).1
  have hrot := (h.rotate hcore hcur).1
  by_cases hrun : a.phase t = .running
  · rw [and_iff_right hrun]
    cases hidle : t.isIdle with
    | true =>
      obtain rfl : t = .idle c := by
        cases t with
        | user n => cases hidle
        | idle d => rw [← (h.current c _ hcur).1, (h.idle d).2.1]
      rw [Life.rotated, if_pos hrun, if_pos hidle] at hsel hrot
      have hprio : ∀ u, (m.kernel.rotated c (.idle c)).priority u = m.kernel.priority u :=
        fun u => congrArg Prod.fst (Kernel.fixed_rotated ..)
      simpa [hprio, Life.setPhase] using
        hrot.selects_idle_iff (fun d => (hprio _).trans (hlast d)) hsel
    | false =>
      rw [Life.rotated, if_pos hrun, hidle, if_neg (by simp)] at hsel hrot
      refine Life.selects_enqueue_iff (hnot _) hsel fun q hq => ?_
      have := ((hrot.queued c q t).mp hq).2.2.2
      rw [← this]
      exact congrArg Prod.fst (Kernel.fixed_rotated ..)
  · rw [Life.rotated, if_neg hrun] at hsel
    refine iff_of_false ?_ fun hand => hrun hand.1
    rintro rfl
    cases hsel with
    | idle hempty =>
      rcases (h.idle c).2.2 with ⟨hp, -⟩ | ⟨hp | hp, -⟩
      · exact h.not_current_of_unborn hp c hcur
      · exact hnr hp
      · exact hrun hp
    | head hq hfirst => exact hnot _ (hq ▸ List.mem_cons_self)

/-- The step of a core at the switch of `reschedule`. -/
theorem Trans.of_switch {b : Bool} (ht : Trans cfg m a (.core c (.next b)) m' a')
    (hcore : m.core c = .switch) (hcur : m.kernel.current c = some t) :
    a.phase t ≠ .ready ∧ ∃ next, m'.kernel.current c = some next ∧
      (a.rotated c (m.kernel.priority t) t).Selects c next a' := by
  cases ht with
  | @switch _ u next _ k _ hc _ hcu hnr hpop hsel hsim =>
    obtain rfl : t = u := Option.some.inj (hcur.symm.trans hcu)
    exact ⟨hnr, next, (Kernel.current_dispatch ..).trans (if_pos rfl), hsel⟩
  | coreMove hmove => exact absurd hcore hmove.ne_switch
  | _ => simp_all

/-- A step leaves the current threads of all cores with a positive counter in
place if and only if it is not a switch of such a core, or one whose current thread
is Running and whose ready threads all are less urgent. -/
theorem noSwitchWhileDisabled_step (hreach : Reachable cfg m) {l : Label}
    (hvalid : l.Valid cfg) (hstep : m.step cfg l = .ok m') :
    NoSwitchWhileDisabled m m' ↔ SwitchesToItself m l := by
  obtain ⟨a, h, hlast⟩ := reach_invariant (I := fun m _ => IdleLast cfg m) (fun _ _ hv => hv)
    (fun c => rfl) (fun _ hI _ ht => ht.idleLast hI) hreach
  obtain ⟨a', ht⟩ := h.trans hvalid hstep
  -- what the switch selects, in terms of the state
  have hself : ∀ {c t b}, l = .core c (.next b) → m.core c = .switch →
      m.kernel.current c = some t → (m'.kernel.current c = some t ↔
        m.kernel.state t = .running ∧ ∀ p ≤ m.kernel.priority t, m.kernel.readyQueue c p = []) := by
    rintro c t b rfl hcore hcur
    obtain ⟨hnr, next, hnext, hsel⟩ := ht.of_switch hcore hcur
    simp only [hnext, Option.some.injEq, h.running_iff, h.readyQueue_eq]
    exact h.selects_self_iff hlast hcore hcur hnr hsel
  constructor
  · intro hno
    cases l with
    | core c act =>
      cases act with
      | next b =>
        exact fun hcore hdepth t hcur => (hself rfl hcore hcur).mp (hno c t hcur hdepth)
      | _ => trivial
    | _ => trivial
  · intro hcond c t hcur hdepth
    rcases ht.current c with hsame | ⟨b, rfl, hcore | hcore⟩
    · rw [hsame, hcur]
    · rw [(h.boot c).mp hcore] at hcur
      cases hcur
    · exact (hself rfl hcore hcur).mpr (hcond hcore hdepth t hcur)

/-- **No context switch with preemption disabled**, exactly: `reschedule` never
replaces the current thread of a core with a positive counter in a run if and only
if, whenever it reaches its switch on such a core, the current thread is Running
and all ready threads are less urgent. -/
theorem no_switch_while_disabled_iff {n : Nat} (r : (system cfg).Run n)
    (hvalid : ∀ i < n, (r.label i).Valid cfg) :
    (∀ i < n, NoSwitchWhileDisabled (r.state i) (r.state (i + 1))) ↔
      ∀ i < n, SwitchesToItself (r.state i) (r.label i) :=
  forall₂_congr fun i hi => noSwitchWhileDisabled_step
    (r.reachVia (C := fun _ l => l.Valid cfg) hvalid i (Nat.le_of_lt hi)) (hvalid i hi) (r.next i hi)

/-- A thread that is alone on its core takes a lock and yields. -/
def lockedYield : (system oneCore).Run 10 :=
  .ofLabels (Machine.initial oneCore)
    ([.construct 5 1#32, .start] ++ steps 0 1 ++ [.core 0 (.lock 0)] ++ steps 0 1 ++
      [.core 0 .yield] ++ steps 0 4)
    .start (by exact system_init oneCore) (by decide +kernel)

theorem no_switch_while_disabled_yield :
    ((lockedYield.state 9).core 0 = .switch ∧
      ((lockedYield.state 9).kernel.schedulers 0).preemptDisableDepth = 1) ∧
    ∀ i < 10, NoSwitchWhileDisabled (lockedYield.state i) (lockedYield.state (i + 1)) := by
  have hvalid : ∀ i < 10, (lockedYield.label i).Valid oneCore := by decide +kernel
  have hswitches : ∀ i < 10, SwitchesToItself (lockedYield.state i) (lockedYield.label i) := by
    decide +kernel
  exact ⟨by decide +kernel, (no_switch_while_disabled_iff lockedYield hvalid).mpr hswitches⟩

/-- A thread takes a lock and constructs a more urgent thread. At the switch of
`reschedule` its core has preemption disabled, and the step makes the new thread
the current one. -/
theorem switched_out_run :
    RunsTo oneCore (fun _ l => l.Valid oneCore)
      (fun m => m.core 0 = .switch ∧ m.kernel.current 0 = some (.user 0) ∧
        (m.kernel.schedulers 0).preemptDisableDepth = 1 ∧ m.kernel.spinlocks 0 = true ∧
        (m.step oneCore (.core 0 (.next false))).toOption.map (fun m' => m'.kernel.current 0) =
          some (some (.user 1)))
      ([.construct 5 1#32, .start] ++ steps 0 1 ++ [.core 0 (.lock 0)] ++ steps 0 1 ++
        [.core 0 (.construct 3 1#32)] ++ steps 0 4) := by decide +kernel

end Cortos
