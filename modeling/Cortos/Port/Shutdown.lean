import Cortos.Port.Quiescence

/-!
# Shutdown

The first core that leaves its pump loop sets `shutdown_requested` and pokes all cores.
`ShutdownInv` says how far it has come: the cores before the one it is at are roused.
-/

namespace Cortos

open Lib Port

variable {cfg : Config} {s s' : PortState} {m m' : Machine} {a a' : Life} {c d e : Nat}

/-! ## The first observer -/

/-- Core `c` is poking core `d` after the pump loop. -/
def Observes (s : PortState) (c d : Nat) (pc : PokePc) : Prop :=
  s.port c = .poke d pc .shutdown

/-- How the first observer has come to where it is after a step. -/
inductive ObserverStep (cfg : Config) (s : PortState) (l : Label) (s' : PortState) (c : Nat) :
    Nat → PokePc → Prop
  | stay {d : Nat} {pc : PokePc} (h : Observes s c d pc) : ObserverStep cfg s l s' c d pc
  | store {d : Nat} (h : Observes s c d .store) (hset : s'.pending d = true) :
    ObserverStep cfg s l s' c d .lock
  | lock {d : Nat} (h : Observes s c d .lock) : ObserverStep cfg s l s' c d .signal
  | signal {d : Nat} (h : Observes s c d .signal)
    (hset : s.pending d = true → s'.pending d = true)
    (hwake : d ≠ c → s'.port d = (s.wake d).port d) : ObserverStep cfg s l s' c d .unlock
  | next {d : Nat} (h : Observes s c d .unlock) (hd : d + 1 < cfg.cores) :
    ObserverStep cfg s l s' c (d + 1) .store
  | first {act : Act} (hl : l = .core c act) (hleaving : s.port c = .casShutdown)
    (hfirst : s.shutdown = false) (hdone : s'.shutdown = true) :
    ObserverStep cfg s l s' c 0 .store

theorem PortTrans.observer {l : Label} {pc : PokePc} (ht : PortTrans cfg s l s')
    (h : Observes s' c d pc) : ObserverStep cfg s l s' c d pc := by
  rcases l.core_cases c with ⟨act, rfl⟩ | hl
  · cases ht with
    | main hl hstep => exact absurd rfl (hl c act)
    | @kernel _ _ m' hpc hstep =>
      simp only [Observes, PortState.goto, Function.update_self] at h
      rcases PortState.afterKernel_cases s.machine m' c with ⟨e, hpc⟩ | ⟨hpc, -⟩ | hpc <;>
        · rw [hpc] at h
          cases h
    | consume hpc hpending | miss hpc hpending =>
      simp only [Observes, PortState.goto, Function.update_self] at h
      rcases hpc with ⟨-, -, rfl⟩ | ⟨-, rfl⟩ <;> cases h
    | release hpc =>
      simp only [Observes, PortState.goto, Function.update_self] at h
      rcases hpc with ⟨-, rfl⟩ | ⟨-, rfl⟩ <;> cases h
    | acquire hpc | spurious hpc | rely hpc | raise hpc | follow hpc =>
      simp only [Observes, PortState.goto, Function.update_self] at h
      cases h
    | store hpc =>
      simp only [Observes, PortState.goto, Function.update_self] at h
      cases h
      exact .store hpc (Function.update_self ..)
    | pokeLock hpc hfree =>
      simp only [Observes, PortState.goto, Function.update_self] at h
      cases h
      exact .lock hpc
    | signal hpc =>
      simp only [Observes, PortState.goto, Function.update_self] at h
      cases h
      refine .signal hpc (fun hset => ?_) fun hd => Function.update_of_ne hd ..
      show (s.wake d).pending d = true
      rwa [(s.wake_frame d).2.2.1]
    | @pokeUnlock _ e b sender hpc =>
      simp only [Observes, PortState.goto, Function.update_self] at h
      rcases PortState.afterPoke_cases cfg e sender with ⟨-, hpc'⟩ | ⟨rfl, hlt, hpc'⟩ | ⟨-, -, hpc'⟩
      · rw [hpc'] at h
        cases h
      · rw [hpc'] at h
        cases h
        exact .next hpc hlt
      · rw [hpc'] at h
        cases h
    | announce hpc hfirst =>
      simp only [Observes, PortState.goto, Function.update_self] at h
      cases h
      exact .first rfl hpc hfirst rfl
  · rcases ht.port_of_ne hl with hsame | ⟨-, hwoken⟩
    · exact .stay (hsame.symm.trans h)
    · rw [Observes, hwoken] at h
      cases h

/-- The first observer stops poking after it has poked the last core. -/
theorem PortTrans.observer_done {l : Label} {pc : PokePc} (ht : PortTrans cfg s l s')
    (h : Observes s c d pc) (hnone : ∀ d' pc', ¬ Observes s' c d' pc') :
    pc = .unlock ∧ cfg.cores ≤ d + 1 := by
  rcases l.core_cases c with ⟨act, rfl⟩ | hl
  · have hgoto : ∀ {d' pc'} (port : Nat → PortPc),
        Function.update port c (.poke d' pc' .shutdown) c = .poke d' pc' .shutdown :=
      fun port => Function.update_self ..
    cases ht with
    | main hl hstep => exact absurd rfl (hl c act)
    | kernel hpc hstep => rcases hpc with ⟨hpc, -⟩ | hpc <;> rw [Observes, hpc] at h <;> cases h
    | consume hpc hpending | miss hpc hpending =>
      rcases hpc with ⟨hpc, -⟩ | ⟨hpc, -⟩ <;> rw [Observes, hpc] at h <;> cases h
    | acquire hpc hfree => rcases hpc with hpc | hpc <;> rw [Observes, hpc] at h <;> cases h
    | release hpc =>
      rcases hpc with ⟨hpc, -⟩ | ⟨hpc, -⟩ <;> rw [Observes, hpc] at h <;> cases h
    | spurious hpc | rely hpc | raise hpc | announce hpc | follow hpc =>
      rw [Observes, hpc] at h
      cases h
    | store hpc | pokeLock hpc | signal hpc =>
      rw [Observes, hpc] at h
      cases h
      exact absurd (hgoto _) (hnone _ _)
    | @pokeUnlock _ e b sender hpc =>
      rw [Observes, hpc] at h
      cases h
      refine ⟨rfl, Nat.le_of_not_lt fun hlt => hnone (d + 1) .store ?_⟩
      simp [Observes, PortState.goto, PortState.afterPoke, hlt]
  · rcases ht.port_of_ne hl with hsame | ⟨hasleep, -⟩
    · exact absurd (hsame.trans h) (hnone d pc)
    · rw [Observes, hasleep] at h
      cases h

/-- A core leaves its pump loop when it reads that only the idle contexts are left. -/
theorem Trans.halted {act : Act} (ht : Trans cfg m a (.core c act) m' a')
    (hhalted : m'.core c = .halted) :
    m.core c = .pump ∧ m.kernel.activeContexts ≤ cfg.cores := by
  have hself : ∀ pc, Function.update m.core c pc c = pc := fun pc => Function.update_self ..
  have hthread : ∀ {f : Nat → CorePc} {P : Prop}, m.core c = .thread →
      f = m.core ∨ f = Function.update m.core c .pump ∧ P → f c ≠ .halted := by
    rintro f P hcore (rfl | ⟨rfl, -⟩)
    · rw [hcore]
      nofun
    · rw [hself]
      nofun
  cases ht with
  | thread hcore hcur hs => exact absurd hhalted (hthread hcore hs.frame.core)
  | construct hcore | block hcore | ret hcore | terminate hcore | win hcore | tearDown hcore =>
    exact absurd hhalted (hthread (P := True) hcore (.inl rfl))
  | ready hcore hcur hafter | post hcore hcur hafter =>
    have hf : ReadyFrame cfg _ _ _ _ _ _ _ _ := hafter.frame
    exact absurd hhalted (hthread hcore hf.core)
  | boot | switch => exact absurd ((hself _).symm.trans hhalted) nofun
  | drainOne hcore hin => exact absurd (hcore.symm.trans hhalted) nofun
  | coreMove hmove =>
    have hpc := (hself _).symm.trans hhalted
    cases hmove with
    | halt hcore hdone => exact ⟨hcore, hdone⟩
    | pump | reschedule | drained => cases hpc

theorem Machine.running_of_core {act : Act} (hs : m.step cfg (.core c act) = .ok m') :
    m.kernel.isRunning = true := by
  rw [step] at hs
  split at hs
  · next h => exact h.1
  · cases hs

/-- How far the shutdown has come. -/
structure ShutdownInv (cfg : Config) (s : PortState) : Prop where
  /-- A core leaves its pump loop only when the system is quiescent. -/
  leaving : ∀ c, (s.port c).leaving = true → Quiescent cfg s.machine
  requested : s.shutdown = true → Quiescent cfg s.machine
  /-- There is one first observer. -/
  observer : ∀ c d pc, Observes s c d pc → s.shutdown = true ∧
    ∀ c' d' pc', Observes s c' d' pc' → c' = c
  progress : ∀ c d pc, Observes s c d pc → (∀ e < d, Roused s e) ∧
    (pc ≠ .store → Alerted s d) ∧ (pc = .unlock → Roused s d)
  finished : s.shutdown = true → (∀ c d pc, ¬ Observes s c d pc) → ∀ e < cfg.cores, Roused s e

/-- What holds in every state of the port. -/
structure PortInv (cfg : Config) (s : PortState) : Prop where
  machine : MachineOk cfg s.machine
  mutex : MutexOk s.port s.mutex
  idle : IdleOk s
  shutdown : ShutdownInv cfg s

theorem PortInv.initial (cfg : Config) : PortInv cfg (PortState.initial cfg) where
  machine := ⟨⟨_, Sim.initial cfg⟩, ContextAccounts.initial cfg⟩
  mutex := nofun
  idle := nofun
  shutdown := ⟨nofun, nofun, nofun, nofun, nofun⟩

section Step

variable {l : Label} (h : PortInv cfg s) (ht : PortTrans cfg s l s') (hvalid : l.Valid cfg)
include h ht hvalid

theorem PortInv.quiescent (hq : Quiescent cfg s.machine) : Quiescent cfg s'.machine :=
  (ht.quiescent h.machine hvalid hq).1

omit ht in
theorem PortInv.shuttingDown (hq : Quiescent cfg s.machine) : ShuttingDown cfg s l :=
  ⟨h.machine, hvalid, h.idle, hq⟩

/-- A core that leaves its pump loop has seen the system quiescent. -/
theorem PortInv.leaving (hleaving : (s'.port c).leaving = true) : Quiescent cfg s'.machine := by
  refine h.quiescent ht hvalid ?_
  by_cases hold : (s.port c).leaving = true
  · exact h.shutdown.leaving c hold
  · rcases l.core_cases c with ⟨act, rfl⟩ | hl
    · cases ht with
      | main hl hstep => exact absurd rfl (hl c act)
      | @kernel _ _ m' hpc hstep =>
        simp only [PortState.goto, Function.update_self] at hleaving
        rcases PortState.afterKernel_cases s.machine m' c with ⟨d, hpc⟩ | ⟨-, hhalted⟩ | hpc
        · rw [hpc] at hleaving
          cases hleaving
        · obtain ⟨⟨a, hsim⟩, -⟩ := h.machine
          obtain ⟨a', ht'⟩ := hsim.trans hvalid hstep
          exact ⟨Machine.running_of_core hstep, (ht'.halted hhalted).2⟩
        · rw [hpc] at hleaving
          cases hleaving
      | consume hpc hpending | miss hpc hpending =>
        simp only [PortState.goto, Function.update_self] at hleaving
        rcases hpc with ⟨-, -, rfl⟩ | ⟨-, rfl⟩ <;> cases hleaving
      | release hpc =>
        simp only [PortState.goto, Function.update_self] at hleaving
        rcases hpc with ⟨-, rfl⟩ | ⟨-, rfl⟩ <;> cases hleaving
      | acquire hpc | spurious hpc | rely hpc | raise hpc =>
        simp only [PortState.goto, Function.update_self] at hleaving
        cases hleaving
      | @store _ d b sender hpc | @pokeLock _ d b sender hpc | @signal _ d b sender hpc =>
        simp only [PortState.goto, Function.update_self] at hleaving
        rw [hpc] at hold
        exact absurd (by cases sender <;> exact hleaving) hold
      | @pokeUnlock _ d b sender hpc =>
        simp only [PortState.goto, Function.update_self] at hleaving
        rw [hpc] at hold
        exact absurd (by cases sender <;> first | rfl | exact hleaving) hold
      | announce hpc | follow hpc =>
        rw [hpc] at hold
        exact absurd rfl hold
    · rcases ht.port_of_ne hl with hsame | ⟨-, hwoken⟩
      · rw [hsame] at hleaving
        exact absurd hleaving hold
      · rw [hwoken] at hleaving
        cases hleaving

omit h hvalid in
/-- `shutdown_requested` is set by a core that then pokes core 0. -/
theorem PortTrans.requested (hdone : s'.shutdown = true) :
    s.shutdown = true ∨ ∃ c, s.port c = .casShutdown ∧ Observes s' c 0 .store := by
  cases ht with
  | @announce c b hpc hfirst => exact .inr ⟨c, hpc, Function.update_self ..⟩
  | @signal c d b sender hpc => exact .inl ((s.wake_frame d).2.2.2.2.symm.trans hdone)
  | _ => exact .inl hdone

omit h hvalid in
theorem PortTrans.shutdown (hdone : s.shutdown = true) : s'.shutdown = true := by
  cases ht with
  | announce hpc hfirst => rfl
  | @signal c d b sender hpc => exact (s.wake_frame d).2.2.2.2.trans hdone
  | _ => exact hdone

omit ht hvalid in
/-- A core that is poked under its mutex is not asleep after the signal, nor about to sleep. -/
theorem PortInv.wake_port (hobs : Observes s c d .signal) (hd : d ≠ c) :
    (s.wake d).port d ≠ .asleep ∧ (s.wake d).port d ≠ .wait := by
  by_cases hasleep : s.port d = .asleep
  · have hwoken : (s.wake d).port d = .woken := by simp [PortState.wake, hasleep, PortState.goto]
    rw [hwoken]
    exact ⟨by simp, by simp⟩
  · rw [PortState.wake, if_neg hasleep]
    refine ⟨hasleep, fun hwait => hd ?_⟩
    have hheld : (s.port c).holds c d = true := by
      rw [show s.port c = _ from hobs]
      exact decide_eq_true rfl
    exact (h.mutex c d hheld).2 d (by rw [hwait]; exact decide_eq_true rfl)

/-- The first observer has poked the cores before the one it is at. -/
theorem PortInv.progress {pc : PokePc} (hobs : Observes s' c d pc) : (∀ e < d, Roused s' e) ∧
    (pc ≠ .store → Alerted s' d) ∧ (pc = .unlock → Roused s' d) := by
  have hdown : ∀ {d pc}, Observes s c d pc → ShuttingDown cfg s l := fun hold =>
    h.shuttingDown hvalid (h.shutdown.requested (h.shutdown.observer c _ _ hold).1)
  cases ht.observer hobs with
  | stay hold =>
    obtain ⟨hbefore, halerted, hroused⟩ := h.shutdown.progress c d _ hold
    exact ⟨fun e he => (hdown hold).roused ht (hbefore e he),
      fun hpc => (hdown hold).alerted ht (halerted hpc),
      fun hpc => (hdown hold).roused ht (hroused hpc)⟩
  | store hold hset =>
    obtain ⟨hbefore, -, -⟩ := h.shutdown.progress c d _ hold
    exact ⟨fun e he => (hdown hold).roused ht (hbefore e he), fun _ => .inl hset, nofun⟩
  | lock hold =>
    obtain ⟨hbefore, halerted, -⟩ := h.shutdown.progress c d _ hold
    exact ⟨fun e he => (hdown hold).roused ht (hbefore e he),
      fun _ => (hdown hold).alerted ht (halerted nofun), nofun⟩
  | signal hold hset hwake =>
    obtain ⟨hbefore, halerted, -⟩ := h.shutdown.progress c d _ hold
    have halerted' := (hdown hold).alerted ht (halerted nofun)
    refine ⟨fun e he => (hdown hold).roused ht (hbefore e he), fun _ => halerted', fun _ => ?_⟩
    rcases halerted' with hset' | hp
    · by_cases hd : d = c
      · -- the observer pokes its own core
        subst hd
        refine .inl (.inr (.inr (.inl ?_)))
        rw [show s'.port d = _ from hobs]
        rfl
      · refine .inr ⟨hset', ?_⟩
        rw [hwake hd]
        exact h.wake_port hold hd
    · exact .inl hp
  | next hold hd =>
    obtain ⟨hbefore, -, hroused⟩ := h.shutdown.progress c _ _ hold
    refine ⟨fun e he => ?_, nofun, nofun⟩
    rcases Nat.lt_succ_iff_lt_or_eq.mp he with he | rfl
    · exact (hdown hold).roused ht (hbefore e he)
    · exact (hdown hold).roused ht (hroused rfl)
  | first hl hleaving hfirst hdone => exact ⟨nofun, nofun, nofun⟩

omit ht hvalid in
/-- Whoever is poking all cores after a step did so before, or has just set
`shutdown_requested`. -/
theorem PortInv.observer_before {pc : PokePc} (hstep : ObserverStep cfg s l s' c d pc) :
    s.shutdown = true ∧ (∀ c' d' pc', Observes s c' d' pc' → c' = c) ∨
      s.shutdown = false ∧ s'.shutdown = true ∧ ∃ act, l = .core c act := by
  cases hstep with
  | stay hold | store hold | lock hold | signal hold | next hold =>
    exact .inl (h.shutdown.observer c _ _ hold)
  | first hl hleaving hfirst hdone => exact .inr ⟨hfirst, hdone, _, hl⟩

/-- There is at most one first observer. -/
theorem PortInv.observer {pc : PokePc} (hobs : Observes s' c d pc) :
    s'.shutdown = true ∧ ∀ c' d' pc', Observes s' c' d' pc' → c' = c := by
  rcases h.observer_before (ht.observer hobs) with ⟨hold, honly⟩ | ⟨hfirst, hdone, act, rfl⟩
  · refine ⟨ht.shutdown hold, fun c' d' pc' hobs' => ?_⟩
    cases ht.observer hobs' with
    | stay hobs'' | store hobs'' | lock hobs'' | signal hobs'' | next hobs'' =>
      exact honly c' _ _ hobs''
    | first hl hleaving hfirst hdone =>
      rw [hold] at hfirst
      cases hfirst
  · refine ⟨hdone, fun c' d' pc' hobs' => ?_⟩
    rcases h.observer_before (ht.observer hobs') with ⟨hold, -⟩ | ⟨-, -, act', hl⟩
    · rw [hold] at hfirst
      cases hfirst
    · cases hl
      rfl

/-- Once the first observer is done, all cores are roused. -/
theorem PortInv.finished (hdone : s'.shutdown = true) (hnone : ∀ c d pc, ¬ Observes s' c d pc) :
    ∀ e < cfg.cores, Roused s' e := by
  intro e he
  rcases ht.requested hdone with hold | ⟨c, -, hobs⟩
  · have hdown := h.shuttingDown hvalid (h.shutdown.requested hold)
    refine hdown.roused ht ?_
    by_cases hsome : ∃ c d pc, Observes s c d pc
    · obtain ⟨c, d, pc, hobs⟩ := hsome
      obtain ⟨rfl, hd⟩ := ht.observer_done hobs (hnone c)
      obtain ⟨hbefore, -, hroused⟩ := h.shutdown.progress c d _ hobs
      rcases Nat.lt_or_ge e d with hlt | hge
      · exact hbefore e hlt
      · have hed : e = d := by omega
        exact hed ▸ hroused rfl
    · exact h.shutdown.finished hold (fun c d pc hobs => hsome ⟨c, d, pc, hobs⟩) e he
  · exact absurd hobs (hnone c 0 .store)

/-- What is known about the requested shutdown. -/
theorem PortInv.requested (hdone : s'.shutdown = true) : Quiescent cfg s'.machine := by
  refine h.quiescent ht hvalid ?_
  rcases ht.requested hdone with hold | ⟨c, hleaving, -⟩
  · exact h.shutdown.requested hold
  · exact h.shutdown.leaving c (by rw [hleaving]; rfl)

/-- **Step lemma.** -/
theorem PortInv.step (hfit : ContextsFit s.machine l) : PortInv cfg s' where
  machine := ht.machineOk h.machine hvalid hfit
  mutex := ht.mutexOk h.mutex
  idle := ht.idleOk h.idle h.machine hvalid
  shutdown := {
    leaving := fun _ => h.leaving ht hvalid
    requested := h.requested ht hvalid
    observer := fun _ _ _ => h.observer ht hvalid
    progress := fun _ _ _ => h.progress ht hvalid
    finished := h.finished ht hvalid }

end Step

/-- **Run lemma.** -/
theorem PortInv.reach (h : (portSystem cfg).ReachVia
    (fun s l => l.Valid cfg ∧ ContextsFit s.machine l) s) : PortInv cfg s := by
  refine h.invariant (fun s hs => ?_) fun s l s' _ hinv hc hstep => ?_
  · cases hs
    exact PortInv.initial cfg
  · exact hinv.step (PortTrans.of_step hstep) hc.1 hc.2

/-! ## Whole runs -/

/-- Core `c` reads at the test of its pump loop that only the idle contexts are left. -/
def PortState.ReadsQuiescence (cfg : Config) (s : PortState) (l : Label) (c : Nat) : Prop :=
  (∃ act, l = .core c act) ∧ s.port c = .kernel ∧ s.machine.core c = .pump ∧
    s.machine.kernel.activeContexts ≤ cfg.cores

/-- The exchange of `cortos_port_idle` finds the pending bit of core `c` set. -/
def PortState.ConsumesPoke (s : PortState) (l : Label) (c : Nat) : Prop :=
  (∃ act, l = .core c act) ∧ (s.port c = .kernel ∧ s.machine.idling c = true ∨ s.port c = .check) ∧
    s.pending c = true

/-- The first observer has set `shutdown_requested` and has poked all cores. -/
def PortState.AllPoked (s : PortState) : Prop :=
  s.shutdown = true ∧ ∀ c d pc, ¬ Observes s c d pc

/-- Quiescence is detected soundly and the cores are woken up to see it. -/
structure SoundShutdown {N : Nat} (r : (portSystem cfg).Run N) : Prop where
  /-- When a core reads that only the idle contexts are left, all threads have called
  `cortos_port_thread_exit`. -/
  exited : ∀ i < N, ∀ c, (r.state i).ReadsQuiescence cfg (r.label i) c →
    ∀ n < (r.state i).machine.kernel.threads, (r.state i).machine.exits (.user n) = 1
  /-- No thread is constructed after that. -/
  settled : ∀ i < N, ∀ c, (r.state i).ReadsQuiescence cfg (r.label i) c →
    ∀ j, i ≤ j → j ≤ N →
      (r.state j).machine.kernel.threads = (r.state i).machine.kernel.threads
  /-- No core is asleep after it has been poked. -/
  awake : ∀ i ≤ N, (r.state i).AllPoked → ∀ c < cfg.cores, (r.state i).port c ≠ .asleep
  /-- A core that consumes a poke never sleeps again. -/
  consumed : ∀ i < N, (r.state i).shutdown = true → ∀ c,
    (r.state i).ConsumesPoke (r.label i) c → ∀ j, i < j → j ≤ N → (r.state j).port c ≠ .asleep

/-- A step of a core is taken while the cores run. -/
theorem PortState.running_of_core {act : Act} (h : s.step cfg (.core c act) = .ok s') :
    s.machine.kernel.isRunning = true := by
  unfold step at h
  dsimp only at h
  split at h
  · next hrun => exact hrun.1
  · cases h

/-- A core that consumes a poke is on its way out. -/
theorem PortTrans.consumes {l : Label} (ht : PortTrans cfg s l s') (h : s.ConsumesPoke l c) :
    Past s' c := by
  obtain ⟨⟨act, rfl⟩, hpc, hset⟩ := h
  have habsurd : ∀ {pc}, s.port c = pc → pc ≠ .kernel → pc ≠ .check → Past s' c :=
    fun hpc' hk hc => by
      rcases hpc with ⟨hpc, -⟩ | hpc
      · exact absurd (hpc'.symm.trans hpc) hk
      · exact absurd (hpc'.symm.trans hpc) hc
  cases ht with
  | main hl hstep => exact absurd rfl (hl c act)
  | kernel hpc' hstep =>
    rcases hpc' with ⟨hkernel, hnot⟩ | hpend
    · rcases hpc with ⟨-, hidle⟩ | hcheck
      · rw [hidle] at hnot
        cases hnot
      · rw [hkernel] at hcheck
        cases hcheck
    · exact habsurd hpend nofun nofun
  | consume hpc' hpending =>
    rcases hpc' with ⟨-, -, rfl⟩ | ⟨-, rfl⟩
    · exact .inr (.inl (Function.update_self ..))
    · exact .inl (Function.update_self ..)
  | miss hpc' hpending =>
    rw [hset] at hpending
    cases hpending
  | acquire hpc' hfree => rcases hpc' with hpc' | hpc' <;> exact habsurd hpc' nofun nofun
  | release hpc' => rcases hpc' with ⟨hpc', -⟩ | ⟨hpc', -⟩ <;> exact habsurd hpc' nofun nofun
  | spurious hpc' | rely hpc' | raise hpc' | store hpc' | pokeLock hpc' | signal hpc'
  | pokeUnlock hpc' | announce hpc' | follow hpc' => exact habsurd hpc' nofun nofun

section Run

variable {N : Nat} {r : (portSystem cfg).Run N} (hvalid : ∀ i < N, (r.label i).Valid cfg)
  (hfit : ∀ i < N, ContextsFit (r.state i).machine (r.label i)) {i : Nat}
include hvalid hfit

theorem PortInv.run (hi : i ≤ N) : PortInv cfg (r.state i) :=
  .reach (r.reachVia (fun i hi => ⟨hvalid i hi, hfit i hi⟩) i hi)

/-- Quiescence is stable. -/
theorem Quiescent.stays (hq : Quiescent cfg (r.state i).machine) :
    ∀ j, i ≤ j → j ≤ N → Quiescent cfg (r.state j).machine ∧
      (r.state j).machine.kernel.threads = (r.state i).machine.kernel.threads :=
  r.stable (P := fun s => Quiescent cfg s.machine ∧ s.machine.kernel.threads =
    (r.state i).machine.kernel.threads) ⟨hq, rfl⟩ fun j _ hj hq => by
    have hinv := PortInv.run hvalid hfit (Nat.le_of_lt hj)
    obtain ⟨hq', hthreads⟩ :=
      (PortTrans.of_step (r.next j hj)).quiescent hinv.machine (hvalid j hj) hq.1
    exact ⟨hq', hthreads.trans hq.2⟩

/-- A core on its way out stays so. -/
theorem Past.stays (hq : Quiescent cfg (r.state i).machine) (hp : Past (r.state i) c) :
    ∀ j, i ≤ j → j ≤ N → Past (r.state j) c :=
  r.stable (P := (Past · c)) hp fun j hij hj hp => by
    have hinv := PortInv.run hvalid hfit (Nat.le_of_lt hj)
    obtain ⟨hq', -⟩ := hq.stays hvalid hfit j hij (Nat.le_of_lt hj)
    exact (hinv.shuttingDown (hvalid j hj) hq').past (PortTrans.of_step (r.next j hj)) hp

omit hvalid hfit in
theorem PortState.ReadsQuiescence.quiescent (hi : i < N)
    (h : (r.state i).ReadsQuiescence cfg (r.label i) c) : Quiescent cfg (r.state i).machine := by
  obtain ⟨⟨act, hl⟩, -, -, hread⟩ := h
  have hstep := r.next i hi
  rw [hl] at hstep
  exact ⟨PortState.running_of_core hstep, hread⟩

end Run

/-- **Quiescence detection is sound and stable**, in every run in which no context is
initialised while the 32-bit counter is at its maximum. -/
theorem shutdown_sound {N : Nat} (r : (portSystem cfg).Run N)
    (hvalid : ∀ i < N, (r.label i).Valid cfg)
    (hfit : ∀ i < N, ContextsFit (r.state i).machine (r.label i)) : SoundShutdown r where
  exited i hi c hread n hn := by
    have hinv := PortInv.run hvalid hfit (Nat.le_of_lt hi)
    exact (hread.quiescent hi).exits hinv.machine.2 hn
  settled i hi c hread j hij hj := ((hread.quiescent hi).stays hvalid hfit j hij hj).2
  awake i hi hpoked c hc := by
    have hinv := PortInv.run hvalid hfit hi
    exact (hinv.shutdown.finished hpoked.1 hpoked.2 c hc).not_asleep
  consumed i hi hdone c hpoke j hij hj := by
    have hinv := PortInv.run hvalid hfit (Nat.le_of_lt hi)
    have ht := PortTrans.of_step (r.next i hi)
    have hq := hinv.quiescent ht (hvalid i hi) (hinv.shutdown.requested hdone)
    exact (Past.stays hvalid hfit hq (ht.consumes hpoke) j hij hj).not_asleep

/-- Core 1 falls asleep before the only thread of core 0 exits, and is woken to shut down. -/
def wokenToShutDown : (portSystem twoCores).Run 29 :=
  .ofLabels (PortState.initial twoCores)
    ([.construct 5 1#32, .start] ++ steps 0 1 ++ steps 1 5 ++ [.core 0 .ret] ++ steps 0 14 ++
      steps 1 6)
    .start rfl (by decide +kernel)

/-- The theorem at this run. -/
theorem woken_core_shuts_down :
    SoundShutdown wokenToShutDown ∧
      (wokenToShutDown.state 13).ReadsQuiescence twoCores (wokenToShutDown.label 13) 0 ∧
      (wokenToShutDown.state 20).port 1 = .asleep ∧
      (wokenToShutDown.state 24).ConsumesPoke (wokenToShutDown.label 24) 1 ∧
      ∀ c < 2, (wokenToShutDown.state 29).port c = .returned :=
  ⟨shutdown_sound wokenToShutDown (by decide +kernel) (by decide +kernel),
    ⟨⟨.next false, rfl⟩, by decide +kernel⟩, by decide +kernel,
    ⟨⟨.next false, rfl⟩, by decide +kernel⟩, by decide +kernel⟩

end Cortos
