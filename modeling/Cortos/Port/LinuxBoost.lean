import Cortos.Machine.Observation

/-!
# The linux_boost port under the kernel

What a simulated core does outside the kernel (`port_linux_boost.cpp`), in step with the
machine of `Cortos.Machine`. While `port c = kernel` core `c` is in the code that the
machine describes, and its steps are those of the machine, except that

- the idle thread does not reschedule at once but calls `cortos_port_idle`, which consumes
  the pending bit of its core or sleeps on its condition variable until the bit is set;
- `post_to_inbox` goes on with its compare-and-swap on `inbox_poke_pending`, and pokes the
  core it has posted to with `cortos_port_send_reschedule_ipi` if it wins;
- `drain_inbox` lowers `inbox_poke_pending` before the first `pop`;
- `CpuCore::start_scheduler` goes on after the pump loop: the first core to set
  `shutdown_requested` pokes all cores, and the scheduler fiber returns.

Every access to an atomic variable, and every operation on a mutex or a condition variable,
is a step of its own. A core that is asleep may wake up without a signal. The last test of
`cortos_port_send_reschedule_ipi`, whether a thread has poked its own core, is left out: a
post goes to another core, and the scheduler fiber is not in a thread.
-/

namespace Cortos

open Lib

namespace Port

/-! ## Program points -/

/-- Who calls `cortos_port_send_reschedule_ipi`. -/
inductive Sender where
  /-- `post_to_inbox`. -/
  | post
  /-- The loop over all cores after the pump loop. -/
  | shutdown
  deriving DecidableEq, Repr

/-- Where a core is in `cortos_port_send_reschedule_ipi`. -/
inductive PokePc where
  /-- Before `core_poke.pending.store`. -/
  | store
  /-- Before `pthread_mutex_lock`. -/
  | lock
  /-- Before `pthread_cond_signal`, holding the mutex. -/
  | signal
  /-- Before `pthread_mutex_unlock`. -/
  | unlock
  deriving DecidableEq, Repr

/-- Where a core is in the port. -/
inductive PortPc where
  /-- In the code of the machine. -/
  | kernel
  /-- In `cortos_port_idle`, before `pthread_mutex_lock`. -/
  | lock
  /-- Before the exchange of the loop, holding the mutex. -/
  | check
  /-- Before `pthread_cond_wait`, holding the mutex. -/
  | wait
  /-- Asleep in `pthread_cond_wait`. -/
  | asleep
  /-- In `pthread_cond_wait`, before it takes the mutex again. -/
  | woken
  /-- Before `pthread_mutex_unlock`; the pending bit has been consumed. -/
  | unlock
  /-- `idle_task` after `cortos_port_idle`, before `cortos_port_pend_reschedule`. -/
  | pend
  /-- `post_to_inbox` of core `target`, before the compare-and-swap. -/
  | casPoke (target : Nat)
  /-- Poking core `target`. -/
  | poke (target : Nat) (pc : PokePc) (sender : Sender)
  /-- After the pump loop, before `shutdown_requested.compare_exchange_strong`. -/
  | casShutdown
  /-- The scheduler fiber has returned. -/
  | returned
  deriving DecidableEq, Repr

end Port

open Port

/-- The machine with its port. -/
structure PortState where
  machine : Machine
  port : Nat → PortPc
  /-- `inbox_poke_pending` of the schedulers. -/
  poke : Nat → Bool
  /-- `core_poke.pending`. -/
  pending : Nat → Bool
  /-- `core_poke.mutex` is held. -/
  mutex : Nat → Bool
  /-- `shutdown_requested`. -/
  shutdown : Bool

/-- Core `c` is in its idle thread, at the call of `cortos_port_idle`. -/
def Machine.idling (m : Machine) (c : Nat) : Bool :=
  m.core c = .thread && match m.kernel.current c with
    | some t => m.fiber t = .idle
    | none => false

namespace PortState

/-- Core `c` moves to `pc`. -/
def goto (s : PortState) (c : Nat) (pc : PortPc) : PortState :=
  { s with port := Function.update s.port c pc }

/-- Where core `c` goes on after a step of the machine from `m` to `m'`. -/
def afterKernel (m m' : Machine) (c : Nat) : PortPc :=
  match m.posting c with
  | some d => .casPoke d
  | none => if m'.core c = .halted then .casShutdown else .kernel

/-- A step of the machine on core `c`. -/
def kernelStep (cfg : Config) (s : PortState) (c : Nat) (act : Act) : Except Fault PortState := do
  let m ← s.machine.step cfg (.core c act)
  return { s.goto c (afterKernel s.machine m c) with
    machine := m
    poke := if s.machine.core c = .reschedule then Function.update s.poke c false else s.poke }

/-- Where `cortos_port_send_reschedule_ipi` returns to after core `d` has been poked. -/
def afterPoke (cfg : Config) (d : Nat) : Sender → PortPc
  | .post => .kernel
  | .shutdown => if d + 1 < cfg.cores then .poke (d + 1) .store .shutdown else .returned

/-- `pthread_cond_signal` to core `d`. -/
def wake (s : PortState) (d : Nat) : PortState :=
  if s.port d = .asleep then s.goto d .woken else s

/-- A step of core `c` in `cortos_port_send_reschedule_ipi`. -/
def pokeStep (cfg : Config) (s : PortState) (c d : Nat) (sender : Sender) :
    PokePc → Except Fault PortState
  | .store => .ok { s.goto c (.poke d .lock sender) with
      pending := Function.update s.pending d true }
  | .lock =>
    if s.mutex d then .error .disabled
    else .ok { s.goto c (.poke d .signal sender) with mutex := Function.update s.mutex d true }
  | .signal => .ok ((s.wake d).goto c (.poke d .unlock sender))
  | .unlock => .ok { s.goto c (afterPoke cfg d sender) with
      mutex := Function.update s.mutex d false }

/-- A step of core `c` in the port. -/
def portStep (cfg : Config) (s : PortState) (c : Nat) (b : Bool) : PortPc → Except Fault PortState
  | .kernel => .ok { s.goto c (if s.pending c then .pend else .lock) with
      pending := Function.update s.pending c false }
  | .lock | .woken =>
    if s.mutex c then .error .disabled
    else .ok { s.goto c .check with mutex := Function.update s.mutex c true }
  | .check => .ok { s.goto c (if s.pending c then .unlock else .wait) with
      pending := Function.update s.pending c false }
  | .wait => .ok { s.goto c .asleep with mutex := Function.update s.mutex c false }
  -- a spurious wake-up
  | .asleep => .ok (s.goto c .woken)
  | .unlock => .ok { s.goto c .pend with mutex := Function.update s.mutex c false }
  | .pend => s.kernelStep cfg c (.next b)
  | .casPoke d =>
    .ok (if s.poke d then s.goto c .kernel
      else { s.goto c (.poke d .store .post) with poke := Function.update s.poke d true })
  | .poke d pc sender => s.pokeStep cfg c d sender pc
  | .casShutdown =>
    .ok (if s.shutdown then s.goto c .returned
      else { s.goto c (.poke 0 .store .shutdown) with shutdown := true })
  | .returned => .error .disabled

/-- One step of the system. -/
def step (cfg : Config) (s : PortState) : Label → Except Fault PortState
  | .core c act =>
    if s.machine.kernel.isRunning ∧ c < cfg.cores then
      if s.port c = .kernel ∧ s.machine.idling c = false then s.kernelStep cfg c act
      else match act with
        | .next b => s.portStep cfg c b (s.port c)
        | _ => .error .disabled
    else .error .disabled
  | l => do
    let m ← s.machine.step cfg l
    return { s with machine := m }

/-- The port before `cortos_port_start_cores`. -/
def initial (cfg : Config) : PortState where
  machine := Machine.initial cfg
  port _ := .kernel
  poke _ := false
  pending _ := false
  mutex _ := false
  shutdown := false

end PortState

/-- The kernel on the linux_boost port, as a transition system. -/
def portSystem (cfg : Config) : Lts PortState Label Fault where
  init s := s = PortState.initial cfg
  step := PortState.step cfg

/-! ## What a step can do -/

/-- The steps of the system. -/
inductive PortTrans (cfg : Config) (s : PortState) : Label → PortState → Prop
  | main {l : Label} {m' : Machine} (hl : ∀ c act, l ≠ .core c act)
    (hstep : s.machine.step cfg l = .ok m') : PortTrans cfg s l { s with machine := m' }
  | kernel {c : Nat} {act : Act} {m' : Machine}
    (hpc : s.port c = .kernel ∧ s.machine.idling c = false ∨ s.port c = .pend)
    (hstep : s.machine.step cfg (.core c act) = .ok m') :
    PortTrans cfg s (.core c act) { s.goto c (PortState.afterKernel s.machine m' c) with
      machine := m'
      poke := if s.machine.core c = .reschedule then Function.update s.poke c false else s.poke }
  /-- The exchange finds the pending bit set. -/
  | consume {c : Nat} {b : Bool} {pc : PortPc}
    (hpc : s.port c = .kernel ∧ s.machine.idling c = true ∧ pc = .pend ∨
      s.port c = .check ∧ pc = .unlock) (hpending : s.pending c = true) :
    PortTrans cfg s (.core c (.next b))
      { s.goto c pc with pending := Function.update s.pending c false }
  /-- The exchange does not find the pending bit set. -/
  | miss {c : Nat} {b : Bool} {pc : PortPc}
    (hpc : s.port c = .kernel ∧ s.machine.idling c = true ∧ pc = .lock ∨
      s.port c = .check ∧ pc = .wait) (hpending : s.pending c = false) :
    PortTrans cfg s (.core c (.next b)) (s.goto c pc)
  | acquire {c : Nat} {b : Bool} (hpc : s.port c = .lock ∨ s.port c = .woken)
    (hfree : s.mutex c = false) :
    PortTrans cfg s (.core c (.next b))
      { s.goto c .check with mutex := Function.update s.mutex c true }
  | release {c : Nat} {b : Bool} {pc : PortPc}
    (hpc : s.port c = .wait ∧ pc = .asleep ∨ s.port c = .unlock ∧ pc = .pend) :
    PortTrans cfg s (.core c (.next b))
      { s.goto c pc with mutex := Function.update s.mutex c false }
  | spurious {c : Nat} {b : Bool} (hpc : s.port c = .asleep) :
    PortTrans cfg s (.core c (.next b)) (s.goto c .woken)
  /-- Another post has raised the flag. -/
  | rely {c d : Nat} {b : Bool} (hpc : s.port c = .casPoke d) :
    PortTrans cfg s (.core c (.next b)) (s.goto c .kernel)
  | raise {c d : Nat} {b : Bool} (hpc : s.port c = .casPoke d) :
    PortTrans cfg s (.core c (.next b))
      { s.goto c (.poke d .store .post) with poke := Function.update s.poke d true }
  | store {c d : Nat} {b : Bool} {sender : Sender} (hpc : s.port c = .poke d .store sender) :
    PortTrans cfg s (.core c (.next b))
      { s.goto c (.poke d .lock sender) with pending := Function.update s.pending d true }
  | pokeLock {c d : Nat} {b : Bool} {sender : Sender} (hpc : s.port c = .poke d .lock sender)
    (hfree : s.mutex d = false) :
    PortTrans cfg s (.core c (.next b))
      { s.goto c (.poke d .signal sender) with mutex := Function.update s.mutex d true }
  | signal {c d : Nat} {b : Bool} {sender : Sender} (hpc : s.port c = .poke d .signal sender) :
    PortTrans cfg s (.core c (.next b)) ((s.wake d).goto c (.poke d .unlock sender))
  | pokeUnlock {c d : Nat} {b : Bool} {sender : Sender}
    (hpc : s.port c = .poke d .unlock sender) :
    PortTrans cfg s (.core c (.next b)) { s.goto c (PortState.afterPoke cfg d sender) with
      mutex := Function.update s.mutex d false }
  /-- The first observer of quiescence. -/
  | announce {c : Nat} {b : Bool} (hpc : s.port c = .casShutdown) (hfirst : s.shutdown = false) :
    PortTrans cfg s (.core c (.next b))
      { s.goto c (.poke 0 .store .shutdown) with shutdown := true }
  | follow {c : Nat} {b : Bool} (hpc : s.port c = .casShutdown) (hdone : s.shutdown = true) :
    PortTrans cfg s (.core c (.next b)) (s.goto c .returned)

variable {cfg : Config} {s s' : PortState} {c : Nat}

theorem PortState.kernelStep_ok {act : Act} (h : s.kernelStep cfg c act = .ok s') :
    ∃ m', s.machine.step cfg (.core c act) = .ok m' ∧
      s' = { s.goto c (afterKernel s.machine m' c) with
        machine := m'
        poke := if s.machine.core c = .reschedule then Function.update s.poke c false
          else s.poke } := by
  rw [kernelStep, bind_ok] at h
  obtain ⟨m', hstep, hs'⟩ := h
  cases hs'
  exact ⟨m', hstep, rfl⟩

theorem PortTrans.of_pokeStep {d : Nat} {b : Bool} {sender : Sender} {pc : PokePc}
    (hpc : s.port c = .poke d pc sender) (h : s.pokeStep cfg c d sender pc = .ok s') :
    PortTrans cfg s (.core c (.next b)) s' := by
  cases pc with
  | store =>
    cases h
    exact .store hpc
  | lock =>
    rw [PortState.pokeStep] at h
    split at h
    · cases h
    · next hfree =>
      cases h
      exact .pokeLock hpc (Bool.eq_false_of_not_eq_true hfree)
  | signal =>
    cases h
    exact .signal hpc
  | unlock =>
    cases h
    exact .pokeUnlock hpc

theorem PortTrans.of_portStep {b : Bool} (hnot : ¬ (s.port c = .kernel ∧ s.machine.idling c = false))
    (h : s.portStep cfg c b (s.port c) = .ok s') : PortTrans cfg s (.core c (.next b)) s' := by
  have hunset : s.pending c = false → Function.update s.pending c false = s.pending := fun hp => by
    rw [← hp, Function.update_eq_self]
  have hacquire : s.port c = .lock ∨ s.port c = .woken →
      (if s.mutex c then .error .disabled else .ok { s.goto c .check with
        mutex := Function.update s.mutex c true }) = (.ok s' : Except Fault PortState) →
      PortTrans cfg s (.core c (.next b)) s' := fun hpc h => by
    split at h
    · cases h
    · next hfree =>
      cases h
      exact .acquire hpc (Bool.eq_false_of_not_eq_true hfree)
  cases hpc : s.port c with
  | kernel =>
    have hidle : s.machine.idling c = true := by simpa [hpc] using hnot
    rw [hpc] at h
    cases h
    cases hp : s.pending c with
    | true => exact .consume (.inl ⟨hpc, hidle, rfl⟩) hp
    | false =>
      rw [hunset hp]
      exact .miss (.inl ⟨hpc, hidle, rfl⟩) hp
  | lock =>
    rw [hpc] at h
    exact hacquire (.inl hpc) h
  | woken =>
    rw [hpc] at h
    exact hacquire (.inr hpc) h
  | check =>
    rw [hpc] at h
    cases h
    cases hp : s.pending c with
    | true => exact .consume (.inr ⟨hpc, rfl⟩) hp
    | false =>
      rw [hunset hp]
      exact .miss (.inr ⟨hpc, rfl⟩) hp
  | wait =>
    rw [hpc] at h
    cases h
    exact .release (.inl ⟨hpc, rfl⟩)
  | asleep =>
    rw [hpc] at h
    cases h
    exact .spurious hpc
  | unlock =>
    rw [hpc] at h
    cases h
    exact .release (.inr ⟨hpc, rfl⟩)
  | pend =>
    rw [hpc] at h
    obtain ⟨m', hstep, rfl⟩ := PortState.kernelStep_ok h
    exact .kernel (.inr hpc) hstep
  | casPoke d =>
    rw [hpc] at h
    cases h
    split
    · exact .rely hpc
    · exact .raise hpc
  | poke d pc sender =>
    rw [hpc] at h
    exact .of_pokeStep hpc h
  | casShutdown =>
    rw [hpc] at h
    cases h
    split
    · next hdone => exact .follow hpc hdone
    · next hfirst => exact .announce hpc (Bool.eq_false_of_not_eq_true hfirst)
  | returned =>
    rw [hpc] at h
    cases h

/-- **What a step can do.** -/
theorem PortTrans.of_step {l : Label} (h : s.step cfg l = .ok s') : PortTrans cfg s l s' := by
  unfold PortState.step at h
  cases l with
  | core c act =>
    dsimp only at h
    split at h
    · split at h
      · next hkernel =>
        obtain ⟨m', hstep, rfl⟩ := PortState.kernelStep_ok h
        exact .kernel (.inl hkernel) hstep
      · next hnot =>
        cases act with
        | next b => exact .of_portStep hnot h
        | _ => cases h
    · cases h
  | construct priority affinity =>
    obtain ⟨m', hstep, hs'⟩ := bind_ok.mp h
    cases hs'
    exact .main nofun hstep
  | start =>
    obtain ⟨m', hstep, hs'⟩ := bind_ok.mp h
    cases hs'
    exact .main nofun hstep

end Cortos
