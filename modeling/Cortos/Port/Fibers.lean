import Cortos.Machine.Effects
import Cortos.Machine.Observation

/-!
# Fibers and their handles (`port_linux_boost.cpp:158–325`)

A `boost::context::fiber` is a handle of a suspended continuation. To resume it empties the
handle, and the handle of whoever was suspended by that is passed to the continuation. So a
continuation that is running has no handle, and a handle that is lost cannot be resumed.

The machine of `Cortos.Machine` says which fiber a core executes. Here the handles are
followed: `context->thread` of every thread, and `thread_caller` and `current_context` of the
OS thread of every core. `Fibers.step` resumes what the handles lead to. It is a fault if there
is no handle where the port asserts one, if `cortos_port_pend_reschedule` finds that it is not
in a thread, or if a handle leads to another fiber than the machine goes to.

- `FiberMove`: a step enters the fiber of a thread, leaves one, or does neither.
- `Fibers.Handles`: who holds which handle (`handles_held`).
- `fibers_follow`: none of the faults happens, so the fibers are where the machine says.

`tls_pointer` is set by `thread_launcher` and nowhere else, so it is that of the thread that
was launched last on its core, and not that of the current thread.
-/

namespace Cortos

open Lib

variable {cfg : Config} {m m' : Machine} {a a' : Life} {l : Label} {c d : Nat} {t u x : ThreadRef}

/-! ## The handles -/

/-- A continuation. -/
inductive Cont where
  | thread (t : ThreadRef)
  /-- The scheduler fiber of core `c`. -/
  | scheduler (c : Nat)
  deriving DecidableEq, Repr

inductive FiberFault where
  | machine (f : Fault)
  /-- `assert(to->thread)`. -/
  | noContext
  /-- `assert(current_core.thread_caller)`. -/
  | noCaller
  /-- `cortos_port_pend_reschedule` returns at once. -/
  | notInThread
  /-- A handle leads to another fiber than the machine goes to. -/
  | astray
  deriving DecidableEq, Repr

/-- The machine with the handles. -/
structure Fibers where
  machine : Machine
  /-- `context->thread`. -/
  thread : ThreadRef → Option Cont
  threadCaller : Nat → Option Cont
  currentContext : Nat → Option ThreadRef
  tlsPointer : Nat → Option ThreadRef
  /-- The fiber of the thread has been entered. -/
  launched : ThreadRef → Bool

namespace Fibers

/-- `cortos_port_context_init` in the constructor of a thread, if the step to `m` is one. -/
def contextInit (s : Fibers) (m : Machine) : ThreadRef → Option Cont :=
  if m.kernel.threads = s.machine.kernel.threads then s.thread
  else Function.update s.thread (.user s.machine.kernel.threads)
    (some (.thread (.user s.machine.kernel.threads)))

/-- `cortos_port_switch` to thread `t`, up to the point where the thread goes on. A fiber that
is entered for the first time runs `thread_launcher`. -/
def portSwitch (s : Fibers) (c : Nat) (t : ThreadRef) : Except FiberFault Fibers :=
  match s.thread t with
  | none => .error .noContext
  | some k =>
    if k = .thread t then .ok { s with
      thread := Function.update s.thread t none
      threadCaller := Function.update s.threadCaller c (some (.scheduler c))
      currentContext := Function.update s.currentContext c (some t)
      tlsPointer := if s.launched t then s.tlsPointer else Function.update s.tlsPointer c (some t)
      launched := Function.update s.launched t true }
    else .error .astray

/-- Thread `t` resumes `thread_caller`: in `cortos_port_pend_reschedule`, and then
`cortos_port_switch` receives its handle; or at the end of its fiber, and then there is
nothing to receive. -/
def leave (s : Fibers) (c : Nat) (t : ThreadRef) (ended : Bool) : Except FiberFault Fibers :=
  if s.currentContext c = none then .error .notInThread
  else
    match s.threadCaller c with
    | none => .error .noCaller
    | some k =>
      if k = .scheduler c ∧ s.currentContext c = some t then .ok { s with
        thread := Function.update s.thread t (if ended then none else some (.thread t))
        threadCaller := Function.update s.threadCaller c none
        currentContext := Function.update s.currentContext c none }
      else .error .astray

def step (cfg : Config) (s : Fibers) (l : Label) : Except FiberFault Fibers :=
  match s.machine.step cfg l with
  | .error f => .error (.machine f)
  | .ok m =>
    let s' := { s with machine := m, thread := s.contextInit m }
    match l with
    | .core c _ =>
      if s.machine.core c = .thread then
        if m.core c = .thread then .ok s'
        else
          match s.machine.kernel.current c with
          | none => .error .astray
          | some t => s'.leave c t (m.fiber t = .finished)
      else if m.core c = .thread then
        match m.kernel.current c with
        | none => .error .astray
        | some t => s'.portSwitch c t
      else .ok s'
    | _ => .ok s'

/-- After `kernel::initialise` the contexts of the idle threads have been initialised. -/
def initial (cfg : Config) : Fibers where
  machine := Machine.initial cfg
  thread
    | .idle c => if c < cfg.cores then some (.thread (.idle c)) else none
    | .user _ => none
  threadCaller _ := none
  currentContext _ := none
  tlsPointer _ := none
  launched _ := false

end Fibers

def fibers (cfg : Config) : Lts Fibers Label FiberFault where
  init s := s = Fibers.initial cfg
  step := Fibers.step cfg

/-! ## Which fiber a step goes to -/

/-- Some core executes the fiber of `t`. -/
def Machine.InFiber (m : Machine) (t : ThreadRef) : Prop :=
  ∃ c, m.core c = .thread ∧ m.kernel.current c = some t

/-- What a step does to the fibers that are executed. -/
inductive FiberMove (cfg : Config) (m : Machine) (l : Label) (m' : Machine) : Prop
  | stay (hcore : ∀ d, m'.core d = .thread ↔ m.core d = .thread)
    (hcur : ∀ d, m.core d = .thread → m'.kernel.current d = m.kernel.current d)
    (hended : ∀ u, m'.fiber u = .finished ↔ m.fiber u = .finished)
  /-- Core `c` leaves the fiber of `t`. -/
  | leave {c : Nat} {t : ThreadRef} {act : Act} (hl : l = .core c act) (hcore : m.core c = .thread)
    (hcur : m.kernel.current c = some t) (hcore' : m'.core = Function.update m.core c .pump)
    (hcur' : ∀ d, m'.kernel.current d = m.kernel.current d)
    (hfiber : ∀ u, u ≠ t → m'.fiber u = m.fiber u)
  /-- Core `c` goes to the fiber of `t`, one of its threads. -/
  | enter {c : Nat} {t : ThreadRef} {b : Bool} (hl : l = .core c (.next b))
    (hcore : m.core c ≠ .thread) (hcore' : m'.core = Function.update m.core c .thread)
    (hcur' : ∀ d, m'.kernel.current d = if d = c then some t else m.kernel.current d)
    (hfiber : m'.fiber = m.fiber) (hreg : m.kernel.Registered cfg t)
    (hpin : m.kernel.pinnedCore t = c) (hlive : m.fiber t ≠ .finished)

theorem Machine.inFiber_stay (hcore : ∀ d, m'.core d = .thread ↔ m.core d = .thread)
    (hcur : ∀ d, m.core d = .thread → m'.kernel.current d = m.kernel.current d) :
    m'.core c = .thread ∧ m'.kernel.current c = some t ↔
      m.core c = .thread ∧ m.kernel.current c = some t := by
  rw [hcore]
  exact and_congr_right fun hc => by rw [hcur c hc]

theorem Sim.inFiber_leave (h : Sim cfg m a) (hcur : m.kernel.current c = some t)
    (hcore' : m'.core = Function.update m.core c .pump)
    (hcur' : ∀ d, m'.kernel.current d = m.kernel.current d) :
    m'.InFiber u ↔ m.InFiber u ∧ u ≠ t := by
  constructor
  · rintro ⟨d, hd, hu⟩
    have hne : d ≠ c := by
      rintro rfl
      simp [hcore'] at hd
    rw [hcore', Function.update_of_ne hne] at hd
    rw [hcur'] at hu
    refine ⟨⟨d, hd, hu⟩, ?_⟩
    rintro rfl
    exact hne ((h.current d u hu).1.symm.trans (h.current c u hcur).1)
  · rintro ⟨⟨d, hd, hu⟩, hne⟩
    have hdc : d ≠ c := by
      rintro rfl
      exact hne (Option.some.inj (hu.symm.trans hcur))
    exact ⟨d, by rw [hcore', Function.update_of_ne hdc, hd], (hcur' d).trans hu⟩

theorem Machine.inFiber_enter (hcore : m.core c ≠ .thread)
    (hcore' : m'.core = Function.update m.core c .thread)
    (hcur' : ∀ d, m'.kernel.current d = if d = c then some t else m.kernel.current d) :
    m'.InFiber u ↔ m.InFiber u ∨ u = t := by
  constructor
  · rintro ⟨d, hd, hu⟩
    rw [hcur'] at hu
    by_cases hdc : d = c
    · rw [if_pos hdc] at hu
      exact .inr (Option.some.inj hu).symm
    · rw [hcore', Function.update_of_ne hdc] at hd
      rw [if_neg hdc] at hu
      exact .inl ⟨d, hd, hu⟩
  · rintro (⟨d, hd, hu⟩ | rfl)
    · have hdc : d ≠ c := fun he => hcore (he ▸ hd)
      exact ⟨d, by rw [hcore', Function.update_of_ne hdc, hd], by rw [hcur', if_neg hdc, hu]⟩
    · exact ⟨c, by rw [hcore', Function.update_self], by rw [hcur', if_pos rfl]⟩

/-- A thread ends by leaving its core. -/
theorem LocalStep.ends {act : Act} {pc : ThreadPc} (hs : LocalStep cfg m a c t act pc m') :
    m'.core = Function.update m.core c .pump ∨ m'.core = m.core ∧ pc ≠ .finished := by
  cases hs with
  | yield | idle | commence | unregisterIdle | threadExit => exact .inl rfl
  | @pickNone b s hpc hnone =>
    rw [Machine.signalReturn]
    split
    · exact .inl rfl
    · refine .inr ⟨rfl, ?_⟩
      rcases s.ret_cases with hr | hr <;> simp [hr]
  | @lost b s n wait i tcb g hpc hdone =>
    rw [Machine.signalNext, Machine.signalReturn]
    split
    · exact .inr ⟨rfl, by simp⟩
    · split
      · exact .inl rfl
      · refine .inr ⟨rfl, ?_⟩
        rcases s.ret_cases with hr | hr <;> simp [hr]
  | @waitReturn b ws p hpc => cases p <;> exact .inr ⟨rfl, by simp [ThreadPc.afterWait]⟩
  | @spin b l hpc =>
    refine .inr ⟨?_, ?_⟩
    · rw [Machine.spin]
      split <;> rfl
    · split <;> simp
  | _ => exact .inr ⟨rfl, by simp⟩

theorem AfterReady.ne_finished {k : Kernel} {resched : Bool} {κ : Claim} {pc : ThreadPc}
    (hafter : AfterReady m c t k resched x κ pc m') : pc ≠ .finished := by
  cases hafter with
  | register hpc => simp
  | @setReady s s' hpc hs =>
    split
    · simp
    · rcases s.ret_cases with hr | hr <;> simp [hr]

/-- A step of a thread leaves the fiber or goes on in it. -/
theorem FiberMove.ofThread {act : Act} {pc : ThreadPc} (hcore : m.core c = .thread)
    (hcur : m.kernel.current c = some t) (hlive : m.fiber t ≠ .finished)
    (hfiber : m'.fiber = Function.update m.fiber t pc)
    (hcur' : ∀ d, m'.kernel.current d = m.kernel.current d)
    (hends : m'.core = Function.update m.core c .pump ∨ m'.core = m.core ∧ pc ≠ .finished) :
    FiberMove cfg m (.core c act) m' := by
  rcases hends with hleave | ⟨hsame, hpc⟩
  · refine .leave rfl hcore hcur hleave hcur' fun u hu => ?_
    rw [hfiber, Function.update_of_ne hu]
  · refine .stay (fun d => by rw [hsame]) (fun d _ => hcur' d) fun u => ?_
    by_cases hu : u = t
    · subst hu
      simp [hfiber, hpc, hlive]
    · rw [hfiber, Function.update_of_ne hu]

/-- A core selects one of its own threads, and one that has not ended. -/
theorem Sim.selects_live (h : Sim cfg m a) (hc : c < cfg.cores) (hsel : a.Selects c t a') :
    m.kernel.Registered cfg t ∧ m.kernel.pinnedCore t = c ∧ m.fiber t ≠ .finished := by
  have hready : m.kernel.pinnedCore t = c ∧ (a.phase t = .ready ∨ a.phase t = .running) := by
    cases hsel with
    | idle hempty =>
      obtain ⟨-, hpin, ⟨-, hge⟩ | ⟨hp, -⟩⟩ := h.idle c
      · omega
      · exact ⟨hpin, hp⟩
    | head hq hfirst =>
      obtain ⟨hp, -, hpin, -⟩ := (h.queued c _ t).mp (hq ▸ List.mem_cons_self)
      exact ⟨hpin, .inl hp⟩
  obtain ⟨hpin, hphase⟩ := hready
  refine ⟨h.registered_iff.mpr ?_, hpin, fun hfin => ?_⟩
  · rcases hphase with hp | hp <;> simp [hp]
  · have hadm := (h.thread t).admits
    rw [hfin] at hadm
    rcases hphase with hp | hp <;> rw [hp] at hadm <;> cases hadm

theorem Trans.fiberMove (ht : Trans cfg m a l m' a') (h : Sim cfg m a)
    (hs : m.step cfg l = .ok m') : FiberMove cfg m l m' := by
  have hlive : ∀ {c act t}, l = .core c act → m.core c = .thread →
      m.kernel.current c = some t → m.fiber t ≠ .finished := by
    intro c act t hl hcore hcur hfin
    subst hl
    exact Machine.not_acting_of_finished hs hfin (Machine.acting_core hcore hcur)
  cases ht with
  | constructBoot hrun hd hprio =>
    exact .stay (fun _ => Iff.rfl) (fun _ _ => by simp) fun _ => Iff.rfl
  | start hrun hpos => exact .stay (fun _ => Iff.rfl) (fun _ _ => rfl) fun _ => Iff.rfl
  | thread hcore hcur hs =>
    exact .ofThread hcore hcur (hlive rfl hcore hcur) hs.frame.fiber
      hs.frame.kernel.currentThread hs.ends
  | construct hcore hcur =>
    exact .ofThread hcore hcur (hlive rfl hcore hcur) rfl
      (Kernel.current_constructed _ _ _ _) (.inr ⟨rfl, by simp⟩)
  | block hcore hcur | ret hcore hcur | terminate hcore hcur | win hcore hcur
  | tearDown hcore hcur =>
    exact .ofThread hcore hcur (hlive rfl hcore hcur) rfl (fun _ => rfl) (.inr ⟨rfl, by simp⟩)
  | ready hcore hcur hafter =>
    have hf : ReadyFrame cfg _ _ _ _ _ _ _ _ := hafter.frame
    refine .ofThread hcore hcur (hlive rfl hcore hcur) hf.fiber (fun d => ?_)
      (hf.core.symm.imp And.left fun hc => ⟨hc, hafter.ne_finished⟩)
    rw [hf.kernel, Kernel.current_makeReady]
  | post hcore hcur hafter =>
    have hf : ReadyFrame cfg _ _ _ _ _ _ _ _ := hafter.frame
    refine .ofThread hcore hcur (hlive rfl hcore hcur) hf.fiber (fun d => ?_)
      (hf.core.symm.imp And.left fun hc => ⟨hc, hafter.ne_finished⟩)
    rw [hf.kernel, Kernel.current_post]
  | @boot c b next k a' hrun hc hcore hpop hsel hsim =>
    obtain ⟨hreg, hpin, hend⟩ := h.selects_live hc hsel
    refine .enter rfl (by simp [hcore]) rfl (fun d => ?_) rfl hreg hpin hend
    exact (Kernel.current_dispatch k c d next).trans
      (by rw [(Kernel.popNext_fields _ hpop).2.2.2])
  | @coreMove c b pc hmove =>
    refine .stay (fun d => ?_) (fun _ _ => rfl) fun _ => Iff.rfl
    by_cases hd : d = c
    · subst hd
      have hpc : pc ≠ .thread := by cases hmove <;> simp
      simp [Machine.coreGoto, hpc, hmove.core.2]
    · simp [Machine.coreGoto, hd]
  | drainOne hcore hin =>
    exact .stay (fun _ => Iff.rfl) (fun _ _ => Kernel.current_drained _ _ _ _ _) fun _ => Iff.rfl
  | @switch c t next b k a' hc hcore hcur hnr hpop hsel hsim =>
    -- the outgoing thread has been made ready again before the next one is selected
    obtain ⟨hreg, hpin, hend⟩ := (h.rotate hcore hcur).1.selects_live hc hsel
    refine .enter rfl (by simp [hcore]) rfl (fun d => ?_) rfl ?_ ?_ hend
    · exact (Kernel.current_dispatch k c d next).trans
        (by rw [(Kernel.popNext_fields _ hpop).2.2.2, Kernel.current_rotated])
    · cases next <;> simpa [Kernel.Registered, (m.kernel.rotated_fields c t).2.1] using hreg
    · exact (congrArg (fun f => f.2.2) (m.kernel.fixed_rotated c t next)).symm.trans hpin

/-! ## Who holds which handle -/

/-- Thread `t` is registered, and its fiber is neither executed nor at its end. -/
def Machine.Suspended (cfg : Config) (m : Machine) (t : ThreadRef) : Prop :=
  m.kernel.Registered cfg t ∧ ¬ m.InFiber t ∧ m.fiber t ≠ .finished

/-- Which threads have been launched, and whose blocks the TLS pointers point to. -/
structure Fibers.Launches (cfg : Config) (s : Fibers) : Prop where
  launched : ∀ t, s.launched t = true → s.machine.kernel.Registered cfg t
  /-- A TLS pointer is that of a thread of the core that has been launched. -/
  tlsPointer : ∀ c t, s.tlsPointer c = some t →
    s.launched t = true ∧ s.machine.kernel.pinnedCore t = c
  tlsSet : ∀ t, s.launched t = true → s.tlsPointer (s.machine.kernel.pinnedCore t) ≠ none

/-- Who holds which handle. -/
structure Fibers.Handles (cfg : Config) (s : Fibers) : Prop extends Fibers.Launches cfg s where
  thread : ∀ t k, s.thread t = some k ↔ k = .thread t ∧ s.machine.Suspended cfg t
  threadCaller : ∀ c k, s.threadCaller c = some k ↔ k = .scheduler c ∧ s.machine.core c = .thread
  currentContext : ∀ c t, s.currentContext c = some t ↔
    s.machine.core c = .thread ∧ s.machine.kernel.current c = some t
  inFiber : ∀ t, s.machine.InFiber t → s.launched t = true

theorem Fibers.Handles.initial (cfg : Config) : (Fibers.initial cfg).Handles cfg := by
  have hcore : ∀ c, (Machine.initial cfg).core c ≠ .thread := fun c => by simp [Machine.initial]
  have hin : ∀ t, ¬ (Machine.initial cfg).InFiber t := by
    rintro t ⟨c, hc, -⟩
    exact hcore c hc
  have hlaunches : (Fibers.initial cfg).Launches cfg :=
    ⟨fun t h => (by cases h), fun c t h => (by cases h), fun t h => (by cases h)⟩
  refine ⟨hlaunches, fun t k => ?_, fun c k => ?_, fun c t => ?_, fun t h => absurd h (hin t)⟩
  · cases t with
    | idle c =>
      have hpc : (Machine.initial cfg).fiber (.idle c) ≠ .finished := by simp [Machine.initial]
      by_cases hc : c < cfg.cores
      · simp [Fibers.initial, Machine.Suspended, Kernel.Registered, hc, hin, hpc,
          eq_comm (a := k)]
      · simp [Fibers.initial, Machine.Suspended, Kernel.Registered, hc]
    | user n =>
      have hthreads : (Machine.initial cfg).kernel.threads = 0 := rfl
      simp [Fibers.initial, Machine.Suspended, Kernel.Registered, hthreads]
  · simp [Fibers.initial, hcore]
  · simp [Fibers.initial, hcore]

section Step

variable {s : Fibers}

theorem Trans.registered (ht : Trans cfg m a l m' a') (h : Sim cfg m a) :
    m'.kernel.threads = m.kernel.threads ∧
        (∀ t, m'.kernel.Registered cfg t ↔ m.kernel.Registered cfg t) ∨
      m'.kernel.threads ≠ m.kernel.threads ∧
        ∀ t, m'.kernel.Registered cfg t ↔ m.kernel.Registered cfg t ∨ t = .user m.kernel.threads := by
  cases ht.turnover h with
  | construct hthreads =>
    refine .inr ⟨by omega, fun t => ?_⟩
    cases t with
    | idle c => simp [Kernel.Registered]
    | user n =>
      simp only [Kernel.Registered, hthreads, ThreadRef.user.injEq]
      omega
  | ret _ _ _ _ hthreads | stay hthreads =>
    refine .inl ⟨hthreads, fun t => ?_⟩
    cases t <;> simp [Kernel.Registered, hthreads]

/-- The handles of threads once a step has been made, before it enters or leaves a fiber. -/
theorem Fibers.Handles.contextInit (hh : s.Handles cfg) (h : Sim cfg s.machine a)
    (ht : Trans cfg s.machine a l m' a') (t : ThreadRef) (k : Cont) :
    s.contextInit m' t = some k ↔ k = .thread t ∧
      m'.kernel.Registered cfg t ∧ ¬ s.machine.InFiber t ∧ s.machine.fiber t ≠ .finished := by
  rw [Fibers.contextInit]
  rcases ht.registered h with ⟨hthreads, hreg⟩ | ⟨hthreads, hreg⟩
  · rw [if_pos hthreads, hreg]
    exact hh.thread t k
  · rw [if_neg hthreads, hreg]
    by_cases hnew : t = .user s.machine.kernel.threads
    · -- a thread that is not yet there is in no fiber
      subst hnew
      have hunborn := (h.born _).mpr (Nat.le_refl s.machine.kernel.threads)
      have hin : ¬ s.machine.InFiber (.user s.machine.kernel.threads) := by
        rintro ⟨d, -, hcur⟩
        exact h.not_current_of_unborn hunborn d hcur
      have hlive : s.machine.fiber (.user s.machine.kernel.threads) ≠ .finished := fun hfin => by
        have hadm := (h.thread (.user s.machine.kernel.threads)).admits
        rw [hunborn, hfin] at hadm
        cases hadm
      simp [hin, hlive, eq_comm (a := k)]
    · rw [Function.update_of_ne hnew, or_iff_left hnew]
      exact hh.thread t k

theorem Trans.registered_mono (ht : Trans cfg m a l m' a') (h : Sim cfg m a)
    (hreg : m.kernel.Registered cfg t) : m'.kernel.Registered cfg t := by
  rcases ht.registered h with ⟨-, hr⟩ | ⟨-, hr⟩
  · exact (hr t).mpr hreg
  · exact (hr t).mpr (.inl hreg)

theorem Trans.pinnedCore (ht : Trans cfg m a l m' a') (hreg : m.kernel.Registered cfg t) :
    m'.kernel.pinnedCore t = m.kernel.pinnedCore t := by
  refine congrArg (fun f => f.2.2) (ht.fixed (u := t) ?_)
  rintro rfl
  exact Nat.lt_irrefl _ hreg

theorem Fibers.step_stay (hs : s.machine.step cfg l = .ok m')
    (hcore : ∀ d, m'.core d = .thread ↔ s.machine.core d = .thread) :
    s.step cfg l = .ok { s with machine := m', thread := s.contextInit m' } := by
  simp only [Fibers.step, hs]
  split
  · next c act =>
    by_cases hc : s.machine.core c = .thread
    · rw [if_pos hc, if_pos ((hcore c).mpr hc)]
    · rw [if_neg hc, if_neg fun hc' => hc ((hcore c).mp hc')]
  · rfl

theorem Fibers.step_leave {act : Act} (hs : s.machine.step cfg (.core c act) = .ok m')
    (hcore : s.machine.core c = .thread) (hcur : s.machine.kernel.current c = some t)
    (hcore' : m'.core c ≠ .thread) : s.step cfg (.core c act) =
      Fibers.leave { s with machine := m', thread := s.contextInit m' } c t
        (m'.fiber t = .finished) := by
  simp only [Fibers.step, hs, if_pos hcore, if_neg hcore', hcur]

theorem Fibers.step_enter {act : Act} (hs : s.machine.step cfg (.core c act) = .ok m')
    (hcore : s.machine.core c ≠ .thread) (hcur : m'.kernel.current c = some t)
    (hcore' : m'.core c = .thread) : s.step cfg (.core c act) =
      Fibers.portSwitch { s with machine := m', thread := s.contextInit m' } c t := by
  simp only [Fibers.step, hs, if_neg hcore, if_pos hcore', hcur]

namespace Fibers

theorem leave_ok {ended : Bool} (hcontext : s.currentContext c = some t)
    (hcaller : s.threadCaller c = some (.scheduler c)) : s.leave c t ended = .ok { s with
      thread := Function.update s.thread t (if ended then none else some (.thread t))
      threadCaller := Function.update s.threadCaller c none
      currentContext := Function.update s.currentContext c none } := by
  simp [leave, hcontext, hcaller]

theorem portSwitch_ok (hthread : s.thread t = some (.thread t)) : s.portSwitch c t = .ok { s with
    thread := Function.update s.thread t none
    threadCaller := Function.update s.threadCaller c (some (.scheduler c))
    currentContext := Function.update s.currentContext c (some t)
    tlsPointer := if s.launched t then s.tlsPointer else Function.update s.tlsPointer c (some t)
    launched := Function.update s.launched t true } := by
  simp [portSwitch, hthread]

/-- A step that launches no thread. -/
theorem Launches.keep {s' : Fibers} (hl : s.Launches cfg) (h : Sim cfg s.machine a)
    (ht : Trans cfg s.machine a l s'.machine a') (hlaunched : s'.launched = s.launched)
    (htls : s'.tlsPointer = s.tlsPointer) : s'.Launches cfg where
  launched t hx := ht.registered_mono h (hl.launched t (hlaunched ▸ hx))
  tlsPointer c t hp := by
    rw [htls] at hp
    obtain ⟨hx, hpin⟩ := hl.tlsPointer c t hp
    exact ⟨hlaunched ▸ hx, (ht.pinnedCore (hl.launched t hx)).trans hpin⟩
  tlsSet t hx := by
    rw [hlaunched] at hx
    rw [htls, ht.pinnedCore (hl.launched t hx)]
    exact hl.tlsSet t hx

/-- `thread_launcher` sets the TLS pointer. -/
theorem Launches.launch {s' : Fibers} (hl : s.Launches cfg) (hreg : s.machine.kernel.Registered cfg t)
    (hpin : s.machine.kernel.pinnedCore t = c) (hm : s'.machine = s.machine)
    (hlaunched : s'.launched = Function.update s.launched t true)
    (htls : s'.tlsPointer = if s.launched t then s.tlsPointer
      else Function.update s.tlsPointer c (some t)) : s'.Launches cfg := by
  by_cases hx : s.launched t = true
  · rw [if_pos hx] at htls
    have hsame : s'.launched = s.launched := by rw [hlaunched, ← hx, Function.update_eq_self]
    refine ⟨?_, ?_, ?_⟩ <;> rw [hsame, hm]
    · exact hl.launched
    · rw [htls]
      exact hl.tlsPointer
    · rw [htls]
      exact hl.tlsSet
  · rw [if_neg hx] at htls
    refine ⟨fun u hu => ?_, fun d u hp => ?_, fun u hu => ?_⟩
    · rw [hm]
      by_cases hut : u = t
      · exact hut ▸ hreg
      · rw [hlaunched, Function.update_of_ne hut] at hu
        exact hl.launched u hu
    · rw [hm, hlaunched]
      rw [htls] at hp
      by_cases hd : d = c
      · subst hd
        rw [Function.update_self] at hp
        cases hp
        exact ⟨Function.update_self .., hpin⟩
      · rw [Function.update_of_ne hd] at hp
        obtain ⟨hlu, hpu⟩ := hl.tlsPointer d u hp
        have hut : u ≠ t := fun he => hd (hpu.symm.trans (he ▸ hpin))
        exact ⟨by rw [Function.update_of_ne hut, hlu], hpu⟩
    · rw [hm, htls]
      by_cases hd : s.machine.kernel.pinnedCore u = c
      · simp [hd]
      · rw [Function.update_of_ne hd]
        refine hl.tlsSet u ?_
        have hut : u ≠ t := fun he => hd (he ▸ hpin)
        rwa [hlaunched, Function.update_of_ne hut] at hu

end Fibers

namespace Fibers.Handles

variable (hh : s.Handles cfg) (h : Sim cfg s.machine a) (ht : Trans cfg s.machine a l m' a')

include hh h ht

theorem stay (hcore : ∀ d, m'.core d = .thread ↔ s.machine.core d = .thread)
    (hcur : ∀ d, s.machine.core d = .thread → m'.kernel.current d = s.machine.kernel.current d)
    (hended : ∀ u, m'.fiber u = .finished ↔ s.machine.fiber u = .finished) :
    Handles cfg { s with machine := m', thread := s.contextInit m' } := by
  have hin : ∀ c t, m'.core c = .thread ∧ m'.kernel.current c = some t ↔
      s.machine.core c = .thread ∧ s.machine.kernel.current c = some t := fun c t =>
    Machine.inFiber_stay hcore hcur
  refine ⟨hh.toLaunches.keep h ht rfl rfl, fun t k => ?_, fun c k => ?_, fun c t => ?_,
    fun t hx => hh.inFiber t ((exists_congr fun c => hin c t).mp hx)⟩
  · have hsame : m'.InFiber t ↔ s.machine.InFiber t := exists_congr fun c => hin c t
    rw [hh.contextInit h ht, Machine.Suspended, hsame, Ne, Ne, hended]
  · rw [hcore]
    exact hh.threadCaller c k
  · rw [hin]
    exact hh.currentContext c t

theorem leave (hcore : s.machine.core c = .thread) (hcur : s.machine.kernel.current c = some t)
    (hcore' : m'.core = Function.update s.machine.core c .pump)
    (hcur' : ∀ d, m'.kernel.current d = s.machine.kernel.current d)
    (hfiber : ∀ u, u ≠ t → m'.fiber u = s.machine.fiber u) : ∃ s',
      Fibers.leave { s with machine := m', thread := s.contextInit m' } c t
        (m'.fiber t = .finished) = .ok s' ∧ s'.machine = m' ∧ s'.Handles cfg := by
  have hcontext := (hh.currentContext c t).mpr ⟨hcore, hcur⟩
  have hcaller := (hh.threadCaller c _).mpr ⟨rfl, hcore⟩
  have hin : ∀ u, m'.InFiber u ↔ s.machine.InFiber u ∧ u ≠ t := fun u =>
    h.inFiber_leave hcur hcore' hcur'
  refine ⟨_, Fibers.leave_ok hcontext hcaller, rfl,
    hh.toLaunches.keep h ht rfl rfl, fun u k => ?_, fun d k => ?_, fun d u => ?_,
    fun u hu => hh.inFiber u ((hin u).mp hu).1⟩
  · by_cases hu : u = t
    · -- the scheduler fiber receives its handle, unless it has ended
      subst hu
      have hreg := ht.registered_mono h (hh.launched u (hh.inFiber u ⟨c, hcore, hcur⟩))
      by_cases hended : m'.fiber u = .finished
      · simp [hended, Machine.Suspended]
      · simp [hended, Machine.Suspended, hreg, hin, eq_comm (a := k)]
    · simp only [Function.update_of_ne hu, hh.contextInit h ht, Machine.Suspended, hin,
        hfiber u hu, ne_eq, hu, not_false_eq_true, and_true]
  · by_cases hd : d = c
    · subst hd
      simp [hcore']
    · simp only [Function.update_of_ne hd, hcore']
      exact hh.threadCaller d k
  · by_cases hd : d = c
    · subst hd
      simp [hcore']
    · simp only [Function.update_of_ne hd, hcore', hcur']
      exact hh.currentContext d u

theorem enter (hcore : s.machine.core c ≠ .thread)
    (hcore' : m'.core = Function.update s.machine.core c .thread)
    (hcur' : ∀ d, m'.kernel.current d = if d = c then some t else s.machine.kernel.current d)
    (hfiber : m'.fiber = s.machine.fiber) (hreg : s.machine.kernel.Registered cfg t)
    (hpin : s.machine.kernel.pinnedCore t = c) (hlive : s.machine.fiber t ≠ .finished) : ∃ s',
      Fibers.portSwitch { s with machine := m', thread := s.contextInit m' } c t = .ok s' ∧
        s'.machine = m' ∧ s'.Handles cfg := by
  have hoff : ¬ s.machine.InFiber t := by
    rintro ⟨d, hd, hcur⟩
    have hdc : d = c := (h.current d t hcur).1.symm.trans hpin
    exact hcore (hdc ▸ hd)
  have hin : ∀ u, m'.InFiber u ↔ s.machine.InFiber u ∨ u = t := fun u =>
    Machine.inFiber_enter hcore hcore' hcur'
  have hreg' := ht.registered_mono h hreg
  have hhandle := (hh.contextInit h ht t _).mpr ⟨rfl, hreg', hoff, hlive⟩
  have hkept : Launches cfg { s with machine := m', thread := s.contextInit m' } :=
    hh.toLaunches.keep h ht rfl rfl
  have hlaunch : ∀ {s' : Fibers}, s'.machine = m' → s'.launched = Function.update s.launched t true →
      s'.tlsPointer = (if s.launched t then s.tlsPointer
        else Function.update s.tlsPointer c (some t)) → s'.Launches cfg :=
    fun hm hl htls => hkept.launch hreg' ((ht.pinnedCore hreg).trans hpin) hm hl htls
  refine ⟨_, Fibers.portSwitch_ok hhandle, rfl,
    hlaunch rfl rfl rfl, fun u k => ?_, fun d k => ?_, fun d u => ?_, fun u hu => ?_⟩
  · by_cases hu : u = t
    · subst hu
      simp [Machine.Suspended, hin]
    · simp only [Function.update_of_ne hu, hh.contextInit h ht, Machine.Suspended, hin, hfiber,
        hu, or_false]
  · by_cases hd : d = c
    · subst hd
      simp [hcore', eq_comm (a := k)]
    · simp only [Function.update_of_ne hd, hcore']
      exact hh.threadCaller d k
  · by_cases hd : d = c
    · subst hd
      simp [hcore', hcur']
    · simp only [Function.update_of_ne hd, hcore', hcur', if_neg hd]
      exact hh.currentContext d u
  · by_cases hut : u = t
    · simp [hut]
    · simp only [Function.update_of_ne hut]
      exact hh.inFiber u (((hin u).mp hu).resolve_right hut)

/-- A step of the machine is one of the fibers, and the handles stay where they belong. -/
theorem step (hs : s.machine.step cfg l = .ok m') :
    ∃ s', s.step cfg l = .ok s' ∧ s'.machine = m' ∧ s'.Handles cfg := by
  cases ht.fiberMove h hs with
  | stay hcore hcur hended =>
    exact ⟨_, Fibers.step_stay hs hcore, rfl, hh.stay h ht hcore hcur hended⟩
  | leave hl hcore hcur hcore' hcur' hfiber =>
    subst hl
    rw [Fibers.step_leave hs hcore hcur (by simp [hcore'])]
    exact hh.leave h ht hcore hcur hcore' hcur' hfiber
  | @enter c t b hl hcore hcore' hcur' hfiber hreg hpin hlive =>
    subst hl
    have hcur : m'.kernel.current c = some t := by rw [hcur', if_pos rfl]
    rw [Fibers.step_enter hs hcore hcur (by simp [hcore'])]
    exact hh.enter h ht hcore hcore' hcur' hfiber hreg hpin hlive

end Fibers.Handles

theorem Fibers.step_machine {s' : Fibers} (hs : s.step cfg l = .ok s') :
    ∃ m, s.machine.step cfg l = .ok m := by
  cases hm : s.machine.step cfg l with
  | ok m => exact ⟨m, rfl⟩
  | error f => simp [Fibers.step, hm] at hs

theorem Fibers.Handles.reach (h : (fibers cfg).ReachVia (fun _ l => l.Valid cfg) s) :
    (∃ a, Sim cfg s.machine a) ∧ s.Handles cfg := by
  refine Lts.ReachVia.invariant
    (I := fun s : Fibers => (∃ a, Sim cfg s.machine a) ∧ s.Handles cfg) ?_ ?_ h
  · rintro _ rfl
    exact ⟨⟨_, Sim.initial cfg⟩, .initial cfg⟩
  · rintro s l s' - ⟨⟨a, ha⟩, hh⟩ hvalid hstep
    have hs : s.step cfg l = .ok s' := hstep
    obtain ⟨m', hm⟩ := Fibers.step_machine hs
    obtain ⟨a', ht⟩ := ha.trans hvalid hm
    obtain ⟨t, hok, hmt, hht⟩ := hh.step ha ht hm
    obtain rfl : t = s' := Except.ok.inj (hok.symm.trans hs)
    exact ⟨⟨a', hmt ▸ ht.sim ha⟩, hht⟩

end Step

/-! ## The results -/

variable {s : Fibers}

/-- **The handles are where the port looks for them**: whatever step the kernel takes, the
port's assertions on handles hold, and the continuation that is resumed is the one that the
step goes to. -/
theorem fibers_follow (h : (fibers cfg).ReachVia (fun _ l => l.Valid cfg) s)
    (hvalid : l.Valid cfg) (hs : s.machine.step cfg l = .ok m') :
    ∃ s', s.step cfg l = .ok s' ∧ s'.machine = m' := by
  obtain ⟨⟨a, ha⟩, hh⟩ := Fibers.Handles.reach h
  obtain ⟨a', ht⟩ := ha.trans hvalid hs
  obtain ⟨s', hok, hm, -⟩ := hh.step ha ht hs
  exact ⟨s', hok, hm⟩

/-- Two threads yield to each other. -/
def backAndForth : (fibers oneCore).Run 14 :=
  .ofLabels (Fibers.initial oneCore)
    ([.construct 5 1#32, .construct 5 1#32, .start] ++ steps 0 1 ++ [.core 0 .yield] ++
      steps 0 4 ++ [.core 0 .yield] ++ steps 0 4)
    (.core 0 (.next false)) rfl (by decide +kernel)

theorem backAndForth_reach (i : Nat) (hi : i ≤ 14) :
    (fibers oneCore).ReachVia (fun _ l => l.Valid oneCore) (backAndForth.state i) :=
  backAndForth.reachVia (C := fun _ l => l.Valid oneCore) (by decide +kernel) i hi

theorem fibers_follow_switch : (backAndForth.state 13).machine.core 0 = .switch ∧
    ∃ m', (backAndForth.state 13).machine.step oneCore (.core 0 (.next false)) = .ok m' ∧
      ∃ s', (backAndForth.state 13).step oneCore (.core 0 (.next false)) = .ok s' ∧
        s'.machine = m' := by
  have hstep : (backAndForth.state 13).step oneCore (.core 0 (.next false)) =
      .ok (backAndForth.state 14) := backAndForth.next 13 (by omega)
  obtain ⟨m', hm⟩ := Fibers.step_machine hstep
  exact ⟨by decide +kernel, m', hm, fibers_follow (backAndForth_reach 13 (by omega)) trivial hm⟩

/-- **Who holds which handle**: the context of a thread holds its continuation exactly while
the thread is registered, not executed by a core and not at its end; a core holds that of its
scheduler exactly while it is in the fiber of its current thread. The TLS pointer of a core is
that of one of its threads that have been launched. -/
theorem handles_held (h : (fibers cfg).ReachVia (fun _ l => l.Valid cfg) s) : s.Handles cfg :=
  (Fibers.Handles.reach h).2

/-- The pointer is not set on a switch back to a thread: here it is not that of the thread
that runs. -/
theorem tls_of_other_thread : (backAndForth.state 14).currentContext 0 = some (.user 0) ∧
    (backAndForth.state 14).tlsPointer 0 = some (.user 1) ∧
    (backAndForth.state 14).Handles oneCore :=
  ⟨by decide +kernel, by decide +kernel, handles_held (backAndForth_reach 14 (Nat.le_refl 14))⟩

end Cortos
