import Mathlib.Data.Finset.Card
import Cortos.Machine.Observation

/-!
# Termination accounting on a single core

When `entry()` returns, `thread_launcher` marks the thread Terminated, signals
its joiners, and only then calls `unregister_thread` and
`cortos_port_thread_exit`. The signal asks for a reschedule when one of the
joiners is more urgent than the terminating thread; the reschedule does not put
a Terminated thread back into the ready matrix, so the two calls are never made.

- `urgent_joiner_run`: a run in which that happens;
- `termination_accounting`: if no thread returns while a more urgent thread is
  joined to it, and fewer than 2^32 threads are ever constructed, the accounts
  are right whenever no exit sequence is executing.
-/

namespace Cortos

open Lib

variable {cfg : Config} {m m' : Machine} {a a' : Life} {c : Nat} {t x u : ThreadRef}

/-- No thread is constructed once the 32-bit counters are exhausted, and no
thread returns from `entry()` while a more urgent thread is joined to it. -/
def JoinersWait (cfg : Config) (m : Machine) : Label → Prop
  | .construct _ _ | .core _ (.construct _ _) => m.kernel.threads + 1 < 2 ^ 32
  | .core c .ret => ∀ t ∈ m.kernel.current c, ∀ n ∈ m.kernel.waitQueue cfg (.termination t),
    m.kernel.priority t ≤ m.kernel.priority n.owner
  | _ => True

instance (m : Machine) : DecidablePred (JoinersWait cfg m)
  | .construct _ _ => inferInstanceAs (Decidable (_ < _))
  | .start => isTrue trivial
  | .core c a => match a with
    | .construct _ _ => inferInstanceAs (Decidable (_ < _))
    | .ret => inferInstanceAs (Decidable (∀ t ∈ m.kernel.current c, ∀ n ∈ _, _ ≤ _))
    | .next _ | .yield | .signalOne _ _ | .signalAll _ _ | .waitForAny _ | .waitUntil _ _
    | .join _ | .lock _ | .tryLock _ | .unlock _ => isTrue trivial

/-- No thread is constructed once the 32-bit counters are exhausted. -/
def CountersFit (m : Machine) : Label → Prop
  | .construct _ _ | .core _ (.construct _ _) => m.kernel.threads + 1 < 2 ^ 32
  | _ => True

instance (m : Machine) : DecidablePred (CountersFit m)
  | .construct _ _ => inferInstanceAs (Decidable (_ < _))
  | .start => isTrue trivial
  | .core _ a => match a with
    | .construct _ _ => inferInstanceAs (Decidable (_ < _))
    | .ret | .next _ | .yield | .signalOne _ _ | .signalAll _ _ | .waitForAny _ | .waitUntil _ _
    | .join _ | .lock _ | .tryLock _ | .unlock _ => isTrue trivial

theorem JoinersWait.countersFit {l : Label} (h : JoinersWait cfg m l) : CountersFit m l := by
  cases l with
  | construct priority affinity => exact h
  | start => trivial
  | core c act =>
    cases act with
    | construct priority affinity => exact h
    | _ => trivial

/-- The launcher of the current thread of the core is past `entry()`. -/
def Machine.ExitRunning (m : Machine) : Prop :=
  m.core 0 = .thread ∧ ∃ t, m.kernel.current 0 = some t ∧ (m.fiber t).exiting = true

/-! ## Exit sequences run to their end -/

/-- The joiners of `t` are not more urgent than `t`. -/
def JoinersCalm (m : Machine) (a : Life) (t : ThreadRef) : Prop :=
  ∀ n ∈ a.waiters (.termination t), m.kernel.priority t ≤ m.kernel.priority n.owner

/-- The signal of an exit sequence of `t` has not asked for a reschedule. -/
def SignalCall.Calm (m : Machine) (a : Life) (t : ThreadRef) (s : SignalCall) : Prop :=
  s.waitable = .termination t ∧ s.reschedule = false ∧ JoinersCalm m a t

/-- At this point of its exit sequence `t` will not ask for a reschedule. -/
def ThreadPc.Calm (m : Machine) (a : Life) (t : ThreadRef) : ThreadPc → Prop
  | .terminate => JoinersCalm m a t
  | .pick s => s.Calm m a t
  | .wake s n _ | .tryWin s n _ _ _ _ =>
    s.Calm m a t ∧ m.kernel.priority t ≤ m.kernel.priority n.owner
  | .teardown s x _ | .setReady s x =>
    s.Calm m a t ∧ m.kernel.priority t ≤ m.kernel.priority x
  | _ => True

/-- Threads past `entry()` have left the launcher, or are executing and will not
ask for a reschedule. -/
def Leaving (m : Machine) (a : Life) : Prop :=
  ∀ t, (m.fiber t).exiting = true → m.fiber t = .finished ∨
    m.core 0 = .thread ∧ m.kernel.current 0 = some t ∧ (m.fiber t).Calm m a t

/-- On a single core, the core of a current thread is core 0. -/
theorem Sim.core_eq_zero (h : Sim cfg m a) (hcores : cfg.cores = 1)
    (hcur : m.kernel.current c = some t) : c = 0 := by
  obtain ⟨hpin, hon⟩ := h.current c t hcur
  have hlt := (h.thread t).core_lt fun hp => by simp [hp, Phase.onCore] at hon
  omega

theorem Sim.core_eq_zero_of_started (h : Sim cfg m a) (hcores : cfg.cores = 1)
    (hcore : m.core c ≠ .boot) : c = 0 := by
  cases hcur : m.kernel.current c with
  | none => exact absurd ((h.boot c).mpr hcur) hcore
  | some t => exact h.core_eq_zero hcores hcur

/-- A step of the current thread `t` to `pc`: the others past `entry()` are
finished. -/
theorem Leaving.acting (hI : Leaving m a) (h : Sim cfg m a) (hcores : cfg.cores = 1)
    (hcur : m.kernel.current c = some t) {pc : ThreadPc}
    (hfiber : m'.fiber = Function.update m.fiber t pc)
    (hcurrent : ∀ d, m'.kernel.current d = m.kernel.current d)
    (hpc : pc.exiting = true → pc = .finished ∨ m'.core c = .thread ∧ pc.Calm m' a' t) :
    Leaving m' a' := by
  obtain rfl := h.core_eq_zero hcores hcur
  intro u hu
  by_cases hut : u = t
  · rw [hut, hfiber, Function.update_self] at hu ⊢
    exact (hpc hu).imp_right fun ⟨hc, hp⟩ => ⟨hc, (hcurrent 0).trans hcur, hp⟩
  · rw [hfiber, Function.update_of_ne hut] at hu ⊢
    rcases hI u hu with hf | ⟨-, hc, -⟩
    · exact .inl hf
    · rw [hcur] at hc
      exact absurd (Option.some.inj hc).symm hut

/-- A step of the scheduler fiber: all threads past `entry()` are finished. -/
theorem Leaving.scheduler (h : Leaving m a) (hcore : m.core 0 ≠ .thread)
    (hfiber : m'.fiber = m.fiber) : Leaving m' a' := by
  intro u hu
  rw [hfiber] at hu ⊢
  rcases h u hu with hf | ⟨hc, -, -⟩
  · exact .inl hf
  · exact absurd hc hcore

/-- Priorities stay and joiners only leave. -/
theorem ThreadPc.Calm.mono {pc : ThreadPc} (h : pc.Calm m a t)
    (hprio : ∀ u, m'.kernel.priority u = m.kernel.priority u)
    (hwait : ∀ w, a'.waiters w ⊆ a.waiters w) : pc.Calm m' a' t := by
  have hjoin : JoinersCalm m a t → JoinersCalm m' a' t := fun hj n hn => by
    rw [hprio, hprio]
    exact hj n (hwait _ hn)
  cases pc with
  | terminate => exact hjoin h
  | pick s => exact ⟨h.1, h.2.1, hjoin h.2.2⟩
  | wake | tryWin | teardown | setReady =>
    exact ⟨⟨h.1.1, h.1.2.1, hjoin h.1.2.2⟩, by rw [hprio, hprio]; exact h.2⟩
  | _ => trivial

/-- A thread that another one holds a node of, or is about to act on, has been
constructed; so constructing a thread disturbs no exit sequence. -/
theorem Sim.calm_construct (h : Sim cfg m a)
    (hprio : ∀ u, a.phase u ≠ .unborn → m'.kernel.priority u = m.kernel.priority u)
    (hwait : a'.waiters = a.waiters) (ht : a.phase t ≠ .unborn)
    (hcalm : (m.fiber t).Calm m a t) : (m.fiber t).Calm m' a' t := by
  have howner : ∀ n : NodeRef, 0 < m.waits n.owner → a.phase n.owner ≠ .unborn :=
    fun n hw hp => by simp [(h.thread n.owner).waits_unborn hp] at hw
  have hjoin : JoinersCalm m a t → JoinersCalm m' a' t := fun hj n hn => by
    rw [hwait] at hn
    have hborn : a.phase n.owner ≠ .unborn := fun hp => by
      simp [h.waiting.mem, hp, Phase.held] at hn
    rw [hprio t ht, hprio _ hborn]
    exact hj n hn
  have hclaim : ∀ x κ, (m.fiber t).claim = some (x, κ) → a.phase x ≠ .unborn := fun x κ hc hp => by
    have := (h.claims x t κ).mp hc
    simp [hp, Phase.claim] at this
  have hcons := (h.thread t).consistent
  cases hpc : m.fiber t with
  | terminate => exact hjoin (by rw [hpc] at hcalm; exact hcalm)
  | pick s =>
    rw [hpc] at hcalm
    exact ⟨hcalm.1, hcalm.2.1, hjoin hcalm.2.2⟩
  | wake s n w =>
    rw [hpc] at hcalm hcons
    refine ⟨⟨hcalm.1.1, hcalm.1.2.1, hjoin hcalm.1.2.2⟩, ?_⟩
    rw [hprio t ht, hprio _ (howner n (Nat.lt_of_lt_of_le hcons.1 hcons.2))]
    exact hcalm.2
  | tryWin s n w tcb g i =>
    rw [hpc] at hcalm hcons
    refine ⟨⟨hcalm.1.1, hcalm.1.2.1, hjoin hcalm.1.2.2⟩, ?_⟩
    rw [hprio t ht, hprio _ (howner n (Nat.lt_of_lt_of_le hcons.1 hcons.2.1))]
    exact hcalm.2
  | teardown s x | setReady s x =>
    rw [hpc] at hcalm hclaim
    refine ⟨⟨hcalm.1.1, hcalm.1.2.1, hjoin hcalm.1.2.2⟩, ?_⟩
    rw [hprio t ht, hprio _ (hclaim x _ rfl)]
    exact hcalm.2
  | _ => trivial

/-- A local step of an exit sequence goes on with the sequence. -/
theorem LocalStep.leaving (hcore : m.core c = .thread) {act : Act}
    {pc : ThreadPc} (hs : LocalStep cfg m a c t act pc m') (hex : pc.exiting = true)
    (hcalm : (m.fiber t).Calm m a t) :
    pc = .finished ∨ m'.core c = .thread ∧ pc.Calm m a t := by
  cases hs with
  | @pickNone b s hpc hnone =>
    rw [hpc] at hcalm
    rw [s.ret_exiting] at hex
    rw [Machine.signalReturn, hcalm.2.1, SignalCall.ret, hex]
    exact .inr ⟨hcore, trivial⟩
  | @pickSome b s n hpc hbest =>
    rw [hpc] at hcalm
    have hmem : n ∈ a.waiters s.waitable := List.mem_of_mem_filter (List.argmin_mem hbest)
    exact .inr ⟨hcore, hcalm, hcalm.2.2 n (hcalm.1 ▸ hmem)⟩
  | wake hpc hheld =>
    rw [hpc] at hcalm
    exact .inr ⟨hcore, hcalm⟩
  | @lost b s n wait i tcb g hpc hdone =>
    rw [hpc] at hcalm
    rw [Machine.signalNext]
    cases hall : s.all with
    | true => exact .inr ⟨hcore, hcalm.1⟩
    | false =>
      simp only [hall, Bool.false_eq_true, if_false, s.ret_exiting] at hex
      simp only [Bool.false_eq_true, if_false, Machine.signalReturn, hcalm.1.2.1, SignalCall.ret,
        hex]
      exact .inr ⟨hcore, trivial⟩
  | unregisterIdle hpc hid => exact .inl rfl
  | unregister hpc hid hpos => exact .inr ⟨hcore, trivial⟩
  | threadExit hpc hpos => exact .inl rfl
  | @waitReturn b ws p hpc => cases p <;> cases hex
  | spin hpc => split at hex <;> cases hex
  | _ => cases hex

/-- The thread of an exit sequence is calm as long as it is not finished. -/
theorem Leaving.calm (h : Leaving m a) (hex : (m.fiber t).exiting = true)
    (hne : m.fiber t ≠ .finished) : (m.fiber t).Calm m a t :=
  ((h t hex).resolve_left hne).2.2

/-- Readying `x` after a wake in an exit sequence asks for no reschedule. -/
theorem AfterReady.leaving {k : Kernel} {resched : Bool} {κ : Claim} {pc : ThreadPc}
    (h : AfterReady m c t k resched x κ pc m') (hcore : m.core c = .thread)
    (hex : pc.exiting = true) (hcalm : (m.fiber t).Calm m a t)
    (hres : m.kernel.priority t ≤ m.kernel.priority x → resched = false) :
    m'.core c = .thread ∧ pc.Calm m a t := by
  cases h with
  | register hpc => cases hex
  | @setReady s s' hpc hs =>
    rw [hpc] at hcalm
    obtain ⟨⟨hw, hr, hj⟩, hle⟩ := hcalm
    have hs' : s' = s := by rw [hs, hres hle, hr, Bool.or_false, ← hr]
    rw [hs', Machine.signalNext]
    cases hall : s.all with
    | true => exact ⟨hcore, hw, hr, hj⟩
    | false =>
      simp only [hall, Bool.false_eq_true, if_false, s.ret_exiting] at hex
      simp only [Bool.false_eq_true, if_false, Machine.signalReturn, hr, SignalCall.ret, hex]
      exact ⟨hcore, trivial⟩

/-- **Step lemma**: exit sequences run to their end. -/
theorem Trans.leaving {l : Label} (ht : Trans cfg m a l m' a') (h : Sim cfg m a)
    (hcores : cfg.cores = 1) (hI : Leaving m a) (hl : JoinersWait cfg m l) : Leaving m' a' := by
  have hprio := fun u => ht.priority h (u := u)
  have hsub : ∀ w, a.waiters w ⊆ a.waiters w := fun w => List.Subset.refl _
  cases ht with
  | constructBoot hrun hd hprio' =>
    intro u hu
    rcases hI u hu with hf | ⟨hc, hcu, hcalm⟩
    · exact .inl hf
    · refine .inr ⟨hc, by simpa using hcu, h.calm_construct hprio rfl (fun hp => ?_) hcalm⟩
      exact h.not_current_of_unborn hp 0 hcu
  | start hrun hpos => exact hI
  | @thread c t act pc m' hcore hcur hs =>
    have hf := hs.frame
    refine hI.acting h hcores hcur hf.fiber hf.kernel.currentThread fun hex => ?_
    have hcalm := hI.calm (hs.points.exiting ▸ hex) hs.not_finished
    exact (hs.leaving hcore hex hcalm).imp_right fun hleave =>
      ⟨hleave.1, hleave.2.mono (fun u => by rw [Kernel.priority, hf.kernel.tcbs]; rfl) hsub⟩
  | construct hcore hcur hpc hd hprio' =>
    exact hI.acting h hcores hcur rfl (fun d => Kernel.current_constructed ..)
      fun hex => by cases hex
  | block hcore hcur hpc hpos hlen hnd hsim =>
    exact hI.acting h hcores hcur rfl (fun d => rfl) fun hex => by cases hex
  | @ret c t hcore hcur hpc =>
    refine hI.acting h hcores hcur rfl (fun d => rfl) fun _ => .inr ⟨hcore, ?_⟩
    have hcalm : (ThreadPc.terminate).Calm m a t := fun n hn =>
      hl t hcur n (by rwa [h.waitQueue_eq])
    exact hcalm.mono (fun u => congrArg Prod.fst (Kernel.fixed_update rfl (by rfl) u)) hsub
  | @terminate c t b hcore hcur hpc =>
    refine hI.acting h hcores hcur rfl (fun d => rfl) fun _ => .inr ⟨hcore, ?_⟩
    have hold := hI.calm (t := t) (by rw [hpc]; rfl) (by simp [hpc])
    rw [hpc] at hold
    have hcalm : (ThreadPc.pick ⟨.termination t, false, true, false, true⟩).Calm m a t :=
      ⟨rfl, rfl, hold⟩
    exact hcalm.mono (fun u => congrArg Prod.fst (Kernel.fixed_update rfl (by rfl) u)) hsub
  | @win c t b s n wait i ws hcore hcur hpc hx =>
    refine hI.acting h hcores hcur rfl (fun d => rfl) fun hex => .inr ⟨hcore, ?_⟩
    have hold := hI.calm (t := t) (by rw [hpc]; exact hex) (by simp [hpc])
    rw [hpc] at hold
    have hcalm : (ThreadPc.teardown s n.owner n.owner).Calm m a t := hold
    exact hcalm.mono (fun u => congrArg Prod.fst (Kernel.fixed_update rfl (by rfl) u)) hsub
  | @tearDown c t x b s ws links hcore hcur hpc hx hsim =>
    refine hI.acting h hcores hcur rfl (fun d => rfl) fun hex => .inr ⟨hcore, ?_⟩
    have hold := hI.calm (t := t) (by rw [hpc]; exact hex) (by simp [hpc])
    rw [hpc] at hold
    have hcalm : (ThreadPc.setReady s x).Calm m a t := hold
    exact hcalm.mono (fun u => congrArg Prod.fst (Kernel.fixed_update rfl (by rfl) u))
      fun w => List.filter_subset_self _
  | @ready c t x b κ pc m' hcore hcur hafter hpin =>
    have hf : ReadyFrame cfg _ _ _ _ _ _ _ _ := hafter.frame
    refine hI.acting h hcores hcur hf.fiber
      (fun d => by rw [hf.kernel, Kernel.current_makeReady]) fun hex => .inr ?_
    obtain ⟨hc, hp⟩ := hafter.leaving hcore hex (hI.calm (hf.exiting ▸ hex) hf.not_finished) fun hle => by
      simpa [Kernel.preempts, Scheduler.currentThreadPriority, hcur] using hle
    exact ⟨hc, hp.mono (fun u => by
      rw [hf.kernel]
      exact congrArg Prod.fst (Kernel.fixed_makeReady ..)) hsub⟩
  | @post c t x b κ pc m' hcore hcur hafter hpin hroom =>
    have hf : ReadyFrame cfg _ _ _ _ _ _ _ _ := hafter.frame
    refine hI.acting h hcores hcur hf.fiber
      (fun d => by rw [hf.kernel, Kernel.current_post]) fun hex => .inr ?_
    obtain ⟨hc, hp⟩ := hafter.leaving hcore hex (hI.calm (hf.exiting ▸ hex) hf.not_finished) fun _ => rfl
    exact ⟨hc, hp.mono (fun u => by rw [hf.kernel]; rfl) hsub⟩
  | @boot c b next k a' hrun hc hcore hpop hsel hsim =>
    obtain rfl : c = 0 := by omega
    exact hI.scheduler (by simp [hcore]) rfl
  | @coreMove c b pc hmove =>
    obtain rfl := h.core_eq_zero_of_started hcores hmove.core.1
    exact hI.scheduler hmove.core.2 rfl
  | @drainOne c x rest hcore hin =>
    obtain rfl := h.core_eq_zero_of_started hcores (c := c) (by simp [hcore])
    exact hI.scheduler (by simp [hcore]) rfl
  | @switch c t next b k a' hc hcore hcur hnr hpop hsel hsim =>
    obtain rfl : c = 0 := by omega
    exact hI.scheduler (by simp [hcore]) rfl

/-! ## The accounts -/

/-- How often a thread at this point has called `unregister_thread`. -/
def ThreadPc.unregistered : ThreadPc → Nat
  | threadExit | finished => 1
  | _ => 0

/-- How often a thread at this point has called `cortos_port_thread_exit`. -/
def ThreadPc.exited : ThreadPc → Nat
  | finished => 1
  | _ => 0

/-- The accounts: calls made so far, thread ids, and the number of registered
threads. -/
structure Accounts (m : Machine) : Prop where
  unregisters : ∀ t, m.unregisters t = (m.fiber t).unregistered
  exits : ∀ t, m.exits t = (m.fiber t).exited
  threads_lt : m.kernel.threads < 2 ^ 32
  generator : m.kernel.threadIdGenerator = u32 (m.kernel.threads + 1)
  ids : ∀ n < m.kernel.threads, (m.kernel.tcbs (.user n)).id = n + 1
  active : m.kernel.activeThreads =
    ((Finset.range m.kernel.threads).filter fun n => m.unregisters (.user n) = 0).card

section Uncalled

variable {f : ThreadRef → Nat} {n N : Nat}

/-- A new thread has not made the call that `f` counts. -/
theorem card_uncalled_succ (hnew : f (.user N) = 0) :
    ((Finset.range (N + 1)).filter fun i => f (.user i) = 0).card =
      ((Finset.range N).filter fun i => f (.user i) = 0).card + 1 := by
  rw [Finset.range_add_one, Finset.filter_insert, if_pos hnew,
    Finset.card_insert_of_notMem (by simp)]

/-- The caller leaves the set of threads that have not made the call. -/
theorem card_uncalled_update (hn : n < N) (hzero : f (.user n) = 0) :
    ((Finset.range N).filter fun i =>
      Function.update f (.user n) (f (.user n) + 1) (.user i) = 0).card =
      ((Finset.range N).filter fun i => f (.user i) = 0).card - 1 := by
  have herase : ((Finset.range N).filter fun i =>
      Function.update f (.user n) (f (.user n) + 1) (.user i) = 0) =
      ((Finset.range N).filter fun i => f (.user i) = 0).erase n := by
    ext i
    by_cases hi : i = n
    · simp [hi]
    · simp [hi]
  have hmem : n ∈ (Finset.range N).filter fun i => f (.user i) = 0 := by simp [hn, hzero]
  rw [herase, Finset.card_erase_of_mem hmem]

end Uncalled

/-- A step that moves the fiber of `t` and makes none of the two calls. -/
theorem Accounts.move (h : Accounts m) {pc : ThreadPc}
    (hfiber : m'.fiber = Function.update m.fiber t pc)
    (hpc : pc.unregistered = (m.fiber t).unregistered ∧ pc.exited = (m.fiber t).exited)
    (hun : m'.unregisters = m.unregisters) (hex : m'.exits = m.exits)
    (hcount : m'.kernel.counters = m.kernel.counters)
    (hfixed : ∀ u, u ≠ .user m.kernel.threads → m'.kernel.fixed u = m.kernel.fixed u) :
    Accounts m' := by
  obtain ⟨hthreads, hgen, hactive⟩ : m'.kernel.threads = m.kernel.threads ∧
      m'.kernel.threadIdGenerator = m.kernel.threadIdGenerator ∧
      m'.kernel.activeThreads = m.kernel.activeThreads := by
    simpa [Kernel.counters] using hcount
  refine ⟨fun u => ?_, fun u => ?_, by rw [hthreads]; exact h.threads_lt,
    by rw [hthreads, hgen, h.generator], fun n hn => ?_, by rw [hthreads, hactive, hun, h.active]⟩
  · rw [hun, h.unregisters, hfiber]
    by_cases hut : u = t
    · rw [hut, Function.update_self, hpc.1]
    · rw [Function.update_of_ne hut]
  · rw [hex, h.exits, hfiber]
    by_cases hut : u = t
    · rw [hut, Function.update_self, hpc.2]
    · rw [Function.update_of_ne hut]
  · rw [hthreads] at hn
    have := hfixed (.user n) (by simpa using Nat.ne_of_lt hn)
    exact (congrArg (fun f => f.2.1) this).trans (h.ids n hn)

/-- A step that only changes other parts of the state. -/
theorem Accounts.stay (h : Accounts m) (hfiber : m'.fiber = m.fiber)
    (hun : m'.unregisters = m.unregisters) (hex : m'.exits = m.exits)
    (hcount : m'.kernel.counters = m.kernel.counters)
    (hfixed : ∀ u, u ≠ .user m.kernel.threads → m'.kernel.fixed u = m.kernel.fixed u) :
    Accounts m' :=
  h.move (t := .user 0) (by rw [hfiber, Function.update_eq_self]) ⟨rfl, rfl⟩ hun hex hcount hfixed

/-- The constructor of a thread: one more id, one more registered thread. -/
theorem Accounts.construct (h : Accounts m) (hsim : Sim cfg m a)
    (hlt : m.kernel.threads + 1 < 2 ^ 32) {pc : ThreadPc}
    (hfiber : m'.fiber = Function.update m.fiber t pc)
    (hpc : pc.unregistered = (m.fiber t).unregistered ∧ pc.exited = (m.fiber t).exited)
    (hun : m'.unregisters = m.unregisters) (hex : m'.exits = m.exits)
    (hcount : m'.kernel.counters = (m.kernel.threads + 1,
      u32 (m.kernel.threadIdGenerator + 1), u32 (m.kernel.activeThreads + 1)))
    (hid : (m'.kernel.tcbs (.user m.kernel.threads)).id = m.kernel.threadIdGenerator)
    (hfixed : ∀ u, u ≠ .user m.kernel.threads → m'.kernel.fixed u = m.kernel.fixed u) :
    Accounts m' := by
  obtain ⟨hthreads, hgen, hactive⟩ : m'.kernel.threads = m.kernel.threads + 1 ∧
      m'.kernel.threadIdGenerator = u32 (m.kernel.threadIdGenerator + 1) ∧
      m'.kernel.activeThreads = u32 (m.kernel.activeThreads + 1) := by
    simpa [Kernel.counters] using hcount
  have hnew : m.unregisters (.user m.kernel.threads) = 0 := by
    have hadm := (hsim.thread (.user m.kernel.threads)).admits
    rw [(hsim.born _).mpr (Nat.le_refl _)] at hadm
    rw [h.unregisters]
    cases hf : m.fiber (.user m.kernel.threads) <;>
      simp_all [Phase.admits, ThreadPc.unregistered]
  have hold : Accounts { m with fiber := m'.fiber } :=
    h.move hfiber hpc rfl rfl rfl fun u hu => rfl
  refine ⟨fun u => by rw [hun]; exact hold.unregisters u, fun u => by rw [hex]; exact hold.exits u,
    by rwa [hthreads], ?_, fun n hn => ?_, ?_⟩
  · rw [hgen, hthreads, h.generator]
    simp only [u32]
    omega
  · rw [hthreads] at hn
    rcases Nat.lt_succ_iff_lt_or_eq.mp hn with hn | rfl
    · have := hfixed (.user n) (by simpa using Nat.ne_of_lt hn)
      exact (congrArg (fun f => f.2.1) this).trans (h.ids n hn)
    · rw [hid, h.generator, u32, Nat.mod_eq_of_lt hlt]
  · have hle : m.kernel.activeThreads ≤ m.kernel.threads := by
      rw [h.active]
      exact (Finset.card_filter_le _ _).trans_eq (Finset.card_range _)
    rw [hactive, hthreads, hun, card_uncalled_succ hnew, ← h.active, u32,
      Nat.mod_eq_of_lt (by omega)]

/-- A thread past `entry()` is a constructed one. -/
theorem Sim.exiting_user (h : Sim cfg m a) (hex : (m.fiber t).exiting = true) :
    ∃ n < m.kernel.threads, t = .user n := by
  refine h.constructed ?_ fun hunborn => ?_
  · cases hidle : t.isIdle with
    | false => rfl
    | true =>
      rw [(h.thread t).idle_fiber.mpr hidle] at hex
      cases hex
  · have hadm := (h.thread t).admits
    rw [hunborn] at hadm
    cases hpc : m.fiber t <;> simp_all [Phase.admits, ThreadPc.exiting]

/-- `unregister_thread`, called by the thread `n`. -/
theorem Accounts.unregister (h : Accounts m) {n : Nat} (hn : n < m.kernel.threads)
    (hpc : m.fiber (.user n) = .unregister) :
    Accounts { m.goto { m.kernel with activeThreads := m.kernel.activeThreads - 1 } (.user n)
        .threadExit with
      unregisters := Function.update m.unregisters (.user n) (m.unregisters (.user n) + 1) } := by
  have hzero : m.unregisters (.user n) = 0 := by rw [h.unregisters, hpc]; rfl
  have hzero' : m.exits (.user n) = 0 := by rw [h.exits, hpc]; rfl
  refine ⟨fun u => ?_, fun u => ?_, h.threads_lt, h.generator, h.ids, ?_⟩
  · by_cases hu : u = .user n
    · simp [hu, Machine.goto, hzero, ThreadPc.unregistered]
    · simp [hu, Machine.goto, h.unregisters]
  · by_cases hu : u = .user n
    · simp [hu, Machine.goto, hzero', ThreadPc.exited]
    · simp [hu, Machine.goto, h.exits]
  · simp only [Machine.goto]
    rw [card_uncalled_update hn hzero, ← h.active]

/-- `cortos_port_thread_exit`, called by the thread `t`. -/
theorem Accounts.threadExit (h : Accounts m) (hpc : m.fiber t = .threadExit) :
    Accounts { m.pend { m.kernel with activeContexts := m.kernel.activeContexts - 1 } c t
        .finished with
      exits := Function.update m.exits t (m.exits t + 1) } := by
  have hone : m.unregisters t = 1 := by rw [h.unregisters, hpc]; rfl
  have hzero : m.exits t = 0 := by rw [h.exits, hpc]; rfl
  refine ⟨fun u => ?_, fun u => ?_, h.threads_lt, h.generator, h.ids, h.active⟩
  · by_cases hu : u = t
    · simp [hu, Machine.pend, hone, ThreadPc.unregistered]
    · simp [hu, Machine.pend, h.unregisters]
  · by_cases hu : u = t
    · simp [hu, Machine.pend, hzero, ThreadPc.exited]
    · simp [hu, Machine.pend, h.exits]

theorem SignalCall.ret_counts (s : SignalCall) : s.ret.unregistered = 0 ∧ s.ret.exited = 0 := by
  rcases s.ret_cases with hr | hr <;> rw [hr] <;> exact ⟨rfl, rfl⟩

/-- What the end of a wake does not touch. -/
theorem Machine.signalNext_counts (m : Machine) (k : Kernel) (c : Nat) (t : ThreadRef)
    (s : SignalCall) : (m.signalNext k c t s).unregisters = m.unregisters ∧
      (m.signalNext k c t s).exits = m.exits ∧ (m.signalNext k c t s).kernel = k := by
  rw [signalNext, signalReturn]
  split
  · exact ⟨rfl, rfl, rfl⟩
  · split <;> exact ⟨rfl, rfl, rfl⟩

theorem SignalCall.next_counts (s s' : SignalCall) :
    (if s.all then ThreadPc.pick s' else s.ret).unregistered = 0 ∧
      (if s.all then ThreadPc.pick s' else s.ret).exited = 0 := by
  split
  · exact ⟨rfl, rfl⟩
  · exact s.ret_counts

/-- Local steps keep the accounts. -/
theorem LocalStep.accounts {act : Act} {pc : ThreadPc} (hs : LocalStep cfg m a c t act pc m')
    (h : Sim cfg m a) (hcur : m.kernel.current c = some t) (hI : Accounts m) : Accounts m' := by
  have hf := hs.frame
  have hfixed : ∀ u, u ≠ .user m.kernel.threads → m'.kernel.fixed u = m.kernel.fixed u :=
    fun u _ => by rw [Kernel.fixed, hf.kernel.tcbs]; rfl
  cases hs with
  | @unlock l k hpc hk =>
    obtain ⟨-, rfl⟩ := Scheduler.enablePreemption_ok.mp hk
    exact hI.stay rfl rfl rfl rfl hfixed
  | @pickNone b s hpc hnone =>
    refine hI.move hf.fiber ?_ ?_ ?_ ?_ hfixed
    · rw [s.ret_counts.1, s.ret_counts.2, hpc]
      exact ⟨rfl, rfl⟩
    all_goals rw [Machine.signalReturn]; split <;> rfl
  | @lost b s n wait i tcb g hpc hdone =>
    obtain ⟨hun, hex, hk⟩ := m.signalNext_counts m.kernel c t s
    refine hI.move hf.fiber ?_ hun hex (by rw [hk]) hfixed
    rw [(s.next_counts s).1, (s.next_counts s).2, hpc]
    exact ⟨rfl, rfl⟩
  | @waitReturn b ws p hpc =>
    cases p <;> exact hI.move hf.fiber (by rw [hpc]; exact ⟨rfl, rfl⟩) rfl rfl rfl hfixed
  | @spin b l hpc =>
    refine hI.move hf.fiber ?_ ?_ ?_ ?_ hfixed
    · rw [hpc]
      split <;> exact ⟨rfl, rfl⟩
    all_goals rw [Machine.spin]; split <;> rfl
  | unregisterIdle hpc hid =>
    -- the idle id is drawn for no constructed thread
    obtain ⟨n, hn, rfl⟩ := h.exiting_user (t := t) (by rw [hpc]; rfl)
    rw [hI.ids n hn, idleThreadId] at hid
    omega
  | unregister hpc hid hpos =>
    obtain ⟨n, hn, rfl⟩ := h.exiting_user (t := t) (by rw [hpc]; rfl)
    exact hI.unregister hn hpc
  | threadExit hpc hpos => exact hI.threadExit hpc
  | _ =>
    exact hI.move hf.fiber (by simp [*, ThreadPc.unregistered, ThreadPc.exited]) rfl rfl rfl hfixed

theorem AfterReady.accounts {k : Kernel} {resched : Bool} {κ : Claim} {pc : ThreadPc}
    (hafter : AfterReady m c t k resched x κ pc m') (hf : ReadyFrame cfg m c t k x κ pc m')
    (hI : Accounts m) (hcount : k.counters = m.kernel.counters)
    (hfixed : ∀ u, u ≠ .user m.kernel.threads → k.fixed u = m.kernel.fixed u) : Accounts m' := by
  rw [← hf.kernel] at hcount hfixed
  cases hafter with
  | register hpc =>
    cases resched <;>
      exact hI.move hf.fiber (by rw [hpc]; exact ⟨rfl, rfl⟩) rfl rfl hcount hfixed
  | @setReady s s' hpc hs =>
    obtain ⟨hun, hex, -⟩ := m.signalNext_counts k c t s'
    refine hI.move hf.fiber ?_ hun hex hcount hfixed
    rw [(s.next_counts s').1, (s.next_counts s').2, hpc]
    exact ⟨rfl, rfl⟩

/-- **Step lemma**: the accounts stay right. -/
theorem Trans.accounts {l : Label} (ht : Trans cfg m a l m' a') (h : Sim cfg m a)
    (hI : Accounts m) (hl : CountersFit m l) : Accounts m' := by
  have hfixed := fun u => ht.fixed (u := u)
  cases ht with
  | constructBoot hrun hd hprio =>
    refine hI.construct h hl (t := .user 0) (by rw [Function.update_eq_self]) ⟨rfl, rfl⟩ rfl rfl rfl
      ?_ hfixed
    simp [Kernel.makeReady_tcbs, Kernel.constructed_tcbs, Kernel.newTcb]
  | start hrun hpos => exact hI.stay rfl rfl rfl rfl hfixed
  | thread hcore hcur hs => exact hs.accounts h hcur hI
  | construct hcore hcur hpc hd hprio =>
    refine hI.construct h hl rfl (by rw [hpc]; exact ⟨rfl, rfl⟩) rfl rfl rfl ?_ hfixed
    simp [Machine.goto, Kernel.constructed_tcbs, Kernel.newTcb]
  | block hcore hcur hpc hpos hlen hnd hsim =>
    refine hI.move rfl ?_ rfl rfl rfl hfixed
    rcases hpc with ⟨hpc, -⟩ | ⟨q, hpc, -⟩ <;> rw [hpc] <;> exact ⟨rfl, rfl⟩
  | ret hcore hcur hpc => exact hI.move rfl (by rw [hpc]; exact ⟨rfl, rfl⟩) rfl rfl rfl hfixed
  | terminate hcore hcur hpc =>
    exact hI.move rfl (by rw [hpc]; exact ⟨rfl, rfl⟩) rfl rfl rfl hfixed
  | win hcore hcur hpc hx => exact hI.move rfl (by rw [hpc]; exact ⟨rfl, rfl⟩) rfl rfl rfl hfixed
  | tearDown hcore hcur hpc hx hsim =>
    exact hI.move rfl (by rw [hpc]; exact ⟨rfl, rfl⟩) rfl rfl rfl hfixed
  | ready hcore hcur hafter hpin =>
    have hf : ReadyFrame cfg _ _ _ _ _ _ _ _ := hafter.frame
    exact hafter.accounts hf hI rfl fun u _ => Kernel.fixed_makeReady ..
  | post hcore hcur hafter hpin hroom =>
    have hf : ReadyFrame cfg _ _ _ _ _ _ _ _ := hafter.frame
    exact hafter.accounts hf hI rfl fun u _ => rfl
  | boot hrun hc hcore hpop hsel hsim =>
    have hcount := (Kernel.popNext_fields _ hpop).2.1
    exact hI.stay rfl rfl rfl hcount hfixed
  | coreMove hmove => exact hI.stay rfl rfl rfl rfl hfixed
  | drainOne hcore hin => exact hI.stay rfl rfl rfl rfl hfixed
  | switch hc hcore hcur hnr hpop hsel hsim =>
    have hcount := (Kernel.popNext_fields _ hpop).2.1.trans (m.kernel.counters_rotated _ _)
    exact hI.stay rfl rfl rfl hcount hfixed

/-! ## The theorem -/

theorem Accounts.initial (cfg : Config) : Accounts (Machine.initial cfg) where
  unregisters t := by cases t <;> rfl
  exits t := by cases t <;> rfl
  threads_lt := Nat.two_pow_pos 32
  generator := rfl
  ids n hn := absurd hn (Nat.not_lt_zero n)
  active := rfl

theorem Leaving.initial (cfg : Config) : Leaving (Machine.initial cfg) (Life.initial cfg) := by
  rintro (n | n) hex <;> cases hex

/-- The Terminated threads are those whose launcher is past `entry()`. -/
theorem Sim.terminated_iff (h : Sim cfg m a) (t : ThreadRef) :
    m.kernel.state t = .terminated ↔ (m.fiber t).exiting = true := by
  have hadm := (h.thread t).admits
  rw [(h.thread t).state]
  cases hp : a.phase t with
  | dead => simpa [Phase.state, hp, Phase.admits] using hadm
  | running =>
    cases hpc : m.fiber t <;> simp_all [Phase.state, Phase.admits, ThreadPc.exiting]
  | ready => simp_all [Phase.state, Phase.admits]
  | _ =>
    cases hpc : m.fiber t <;>
      simp_all [Phase.state, Phase.admits, ThreadPc.exiting, ThreadPc.blockedOn]

/-- **Termination accounting**: on a single core, when no thread returns while a
more urgent thread is joined to it and the counters do not wrap, a Terminated
thread that is not executing its exit sequence has made each of the two calls
once; and while no exit sequence is executing, the number of registered threads
is that of the constructed threads that are not Terminated. -/
theorem termination_accounting (hcores : cfg.cores = 1)
    (hreach : (system cfg).ReachVia (fun m l => l.Valid cfg ∧ JoinersWait cfg m l) m) :
    (∀ n < m.kernel.threads, m.kernel.state (.user n) = .terminated →
      (¬ m.ExitRunning ∨ m.kernel.current 0 ≠ some (.user n)) →
      m.unregisters (.user n) = 1 ∧ m.exits (.user n) = 1) ∧
    (¬ m.ExitRunning → m.kernel.activeThreads =
      ((Finset.range m.kernel.threads).filter fun n =>
        m.kernel.state (.user n) ≠ .terminated).card) := by
  obtain ⟨a, h, hL, hA⟩ := reach_invariant (I := fun m a => Leaving m a ∧ Accounts m)
    (fun _ _ hc => hc.1) ⟨Leaving.initial cfg, Accounts.initial cfg⟩
    (fun hs hI hc ht => ⟨ht.leaving hs hcores hI.1 hc.2, ht.accounts hs hI.2 hc.2.countersFit⟩) hreach
  have hfinished : ∀ n, (m.fiber (.user n)).exiting = true →
      (¬ m.ExitRunning ∨ m.kernel.current 0 ≠ some (.user n)) →
      m.fiber (.user n) = .finished := fun n hex hnot => by
    refine (hL _ hex).resolve_right fun ⟨hc, hcur, _⟩ => ?_
    rcases hnot with hnot | hnot
    · exact hnot ⟨hc, _, hcur, hex⟩
    · exact hnot hcur
  refine ⟨fun n hn hst hnot => ?_, fun hnot => ?_⟩
  · rw [hA.unregisters, hA.exits, hfinished n ((h.terminated_iff _).mp hst) hnot]
    exact ⟨rfl, rfl⟩
  · rw [hA.active]
    congr 1
    refine Finset.filter_congr fun n _ => ?_
    rw [hA.unregisters, Ne, h.terminated_iff]
    -- past `entry()` a thread has unregistered, and before that it has not
    by_cases hex : (m.fiber (.user n)).exiting = true
    · simp [hfinished n hex (.inl hnot), ThreadPc.unregistered, ThreadPc.exiting]
    · cases hpc : m.fiber (.user n) <;> simp_all [ThreadPc.unregistered, ThreadPc.exiting]

/-- A thread joins another one of its priority, which then returns; the joiner
goes on. -/
theorem termination_accounting_join :
    ∃ m : Machine, ¬ m.ExitRunning ∧ m.kernel.state (.user 0) = .terminated ∧
      m.unregisters (.user 0) = 1 ∧ m.exits (.user 0) = 1 ∧
      m.kernel.activeThreads = ((Finset.range m.kernel.threads).filter fun n =>
        m.kernel.state (.user n) ≠ .terminated).card := by
  have hrun : RunsTo oneCore (fun m l => l.Valid oneCore ∧ JoinersWait oneCore m l)
      (fun m => (m.kernel.current 0 = some (.user 1) ∧ m.fiber (.user 1) = .user) ∧
        m.kernel.threads = 2 ∧ m.kernel.state (.user 0) = .terminated)
      ([.construct 5 1#32, .construct 5 1#32, .start] ++ steps 0 1 ++ [.core 0 .yield] ++
        steps 0 4 ++ [.core 0 (.join 0)] ++ steps 0 6 ++ [.core 0 .ret] ++ steps 0 15) := by
    decide +kernel
  obtain ⟨m, hreach, ⟨hcur, hpc⟩, hthreads, hst⟩ := hrun.reach
  have hnot : ¬ m.ExitRunning := by
    rintro ⟨-, t, ht, hex⟩
    rw [hcur] at ht
    rw [← Option.some.inj ht, hpc] at hex
    cases hex
  obtain ⟨hcalls, hactive⟩ := termination_accounting rfl hreach
  obtain ⟨hun, hexits⟩ := hcalls 0 (by rw [hthreads]; decide) hst (.inl hnot)
  exact ⟨m, hnot, hst, hun, hexits, hactive hnot⟩

/-- A more urgent thread joins another one, which then returns. The signal of the
exit sequence switches to the joiner; the joiner has returned from `join` and is
in its own code, and the other thread, Terminated, will never be unregistered. -/
theorem urgent_joiner_run :
    RunsTo oneCore (fun _ l => l.Valid oneCore)
      (fun m => (m.core 0 = .thread ∧ m.kernel.current 0 = some (.user 1) ∧
        m.fiber (.user 1) = .user) ∧ m.kernel.state (.user 0) = .terminated ∧
        m.unregisters (.user 0) = 0 ∧ m.exits (.user 0) = 0 ∧
        m.kernel.threads = 2 ∧ m.kernel.activeThreads = 2)
      ([.construct 5 1#32, .construct 3 1#32, .start] ++ steps 0 1 ++ [.core 0 (.join 0)] ++
        steps 0 6 ++ [.core 0 .ret] ++ steps 0 13) := by decide +kernel

end Cortos
