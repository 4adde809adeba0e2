import Cortos.Port.Sleep

/-!
# Starting the kernel again

`main` may run the kernel several times: `kernel::initialise`, the constructors of the
threads, `kernel::start`, which returns when all cores have left their pump loops, and
`kernel::finalise`. The kernel and the port are global objects. What one run leaves in them
is what the next one starts from.

- `Kernel.initialise` and `PortState.finalise` are the two calls on the memory of an earlier
  run, with their assertions; `session` is the transition system of such a program.
- `Quiet`: when all cores have returned, no thread is in a ready queue, an inbox or a wait
  queue, and no mutex of the port is locked.
- So the assertions of `finalise` hold, and `initialise` makes the state that the model of
  one run starts from (`restart_fresh`): what holds in all runs holds after every restart.

`finalise` does not reset the port's count of contexts; `kernel::start` does that when it
returns. A kernel that is finalised without having been started leaves its idle contexts in
the count, and no later `kernel::start` returns (`abandoned_start_hangs`).
-/

namespace Cortos

open Lib Port

variable {cfg : Config} {s s' : PortState} {m m' : Machine} {a a' : Life} {k : Kernel} {c d : Nat}

/-! ## Initialising -/

/-- The heads and tails of the lists that `keep` selects, when the elements are gone. -/
def Lib.Links.heads {ι α : Type} (l : Links ι α) (keep : ι → Bool) : Links ι α where
  next _ := none
  prev _ := none
  head i := if keep i then l.head i else none
  tail i := if keep i then l.tail i else none

/-- A waitable of the application. -/
def WaitableRef.isObject : WaitableRef → Bool
  | .object _ => true
  | .termination _ => false

namespace Kernel

/-- `KERNEL` and the port's counter before the first call of `kernel::initialise`. -/
def static (cfg : Config) : Kernel where
  tcbs := (initialised cfg).tcbs
  ready := Links.empty
  waiters := Links.empty
  schedulers _ := {}
  threads := 0
  isRunning := false
  activeThreads := 0
  threadIdGenerator := 1
  activeContexts := 0
  spinlocks _ := false

/-- What is left of the kernel's memory when the threads of the last run are gone: the heads
of the ready queues, the wait queues of the application's waitables, and the schedulers that
there are. Control blocks, with the links in them, belong to the threads. -/
def survivors (cfg : Config) (k : Kernel) : Kernel :=
  { k with
    tcbs := (initialised cfg).tcbs
    ready := k.ready.heads fun _ => true
    waiters := k.waiters.heads WaitableRef.isObject
    schedulers := fun c => if c < cfg.cores then k.schedulers c else { idleThread := some (.idle c) }
    threads := 0 }

/-- `Scheduler::init_idle_thread`. -/
def initIdleThread (cfg : Config) (k : Kernel) (c : Nat) : Kernel :=
  { k.modifySched c fun s => { s with idleThread := some (.idle c) } with
    tcbs := Function.update k.tcbs (.idle c) (idleTcb cfg c)
    activeContexts := u32 (k.activeContexts + 1) }

/-- The loop of `Kernel::initialise`. -/
def initialise (cfg : Config) (k : Kernel) : Kernel :=
  (List.range cfg.cores).foldl (initIdleThread cfg) (k.survivors cfg)

end Kernel

/-! ## Finalising -/

/-- The assertions of `Kernel::initialise`, `Kernel::finalise` and `Scheduler::reset`. -/
inductive RestartPanic where
  /-- `!initialised` in `initialise`. -/
  | initialised
  /-- `initialised` in `finalise`. -/
  | notInitialised
  /-- `inbox.approx_size() == 0`. -/
  | inboxNotEmpty
  /-- `ready_matrix.empty()`. -/
  | readyMatrixNotEmpty
  deriving DecidableEq, Repr

/-- `Scheduler::reset`, without `inbox_poke_pending`. -/
def Scheduler.reset (s : Scheduler) : Except RestartPanic Scheduler :=
  if s.inbox.length ≠ 0 then .error .inboxNotEmpty
  else if s.bitmap ≠ 0#32 then .error .readyMatrixNotEmpty
  else .ok { s with pinnedThreadCounter := 0, preemptDisableDepth := 0, currentThread := none }

namespace PortState

/-- `Scheduler::reset` of core `c`. -/
def resetScheduler (s : PortState) (c : Nat) : Except RestartPanic PortState := do
  let sched ← (s.machine.kernel.schedulers c).reset
  return { s with
    machine.kernel := s.machine.kernel.modifySched c fun _ => sched
    poke := Function.update s.poke c false }

/-- `Kernel::finalise` after its assertion. -/
def finalise (cfg : Config) (s : PortState) : Except RestartPanic PortState :=
  (List.range cfg.cores).foldlM resetScheduler { s with
    machine.kernel :=
      { s.machine.kernel with isRunning := false, threadIdGenerator := 1, activeThreads := 0 } }

/-- `GlobalState::reset`, at the end of `cortos_port_start_cores`. -/
def globalReset (s : PortState) : PortState :=
  { s with machine.kernel.activeContexts := 0, shutdown := false }

/-- `Kernel::initialise` after its assertion. The cores of the port, with their mutexes and
pending bits, are made anew by `cortos_port_start_cores`. -/
def initialise (cfg : Config) (s : PortState) : PortState where
  machine := { Machine.initial cfg with kernel := s.machine.kernel.initialise cfg }
  port _ := .kernel
  poke c := decide (c < cfg.cores) && s.poke c
  pending _ := false
  mutex _ := false
  shutdown := s.shutdown

end PortState

/-! ## The two loops in closed form -/

/-- The memory of the kernel between two runs. -/
structure Kernel.Down (cfg : Config) (k : Kernel) : Prop where
  ready : ∀ i, k.ready.head i = none ∧ k.ready.tail i = none
  waiters : ∀ w, w.isObject = true → k.waiters.head w = none ∧ k.waiters.tail w = none
  /-- Only the pointer to the idle thread is left in a scheduler. -/
  schedulers : ∀ c < cfg.cores, k.schedulers c = { idleThread := (k.schedulers c).idleThread }
  isRunning : k.isRunning = false
  activeThreads : k.activeThreads = 0
  threadIdGenerator : k.threadIdGenerator = 1

theorem Kernel.static_down (cfg : Config) : (Kernel.static cfg).Down cfg :=
  ⟨fun _ => ⟨rfl, rfl⟩, fun _ _ => ⟨rfl, rfl⟩, fun _ _ => rfl, rfl, rfl, rfl⟩

/-- Without elements in its lists nothing is left of the links. -/
theorem Lib.Links.heads_eq_empty {ι α : Type} {l : Links ι α} {keep : ι → Bool}
    (h : ∀ i, keep i = true → l.head i = none ∧ l.tail i = none) : l.heads keep = Links.empty := by
  have hhead : ∀ i, (if keep i then l.head i else none) = none := fun i => by
    split
    · next hkeep => exact (h i hkeep).1
    · rfl
  have htail : ∀ i, (if keep i then l.tail i else none) = none := fun i => by
    split
    · next hkeep => exact (h i hkeep).2
    · rfl
  rw [Links.heads, Links.empty, funext hhead, funext htail]

/-- The kernel after the idle threads of the first `n` cores have been built. -/
theorem Kernel.foldl_initIdleThread (hcontexts : k.activeContexts < 2 ^ 32) (n : Nat) :
    (List.range n).foldl (initIdleThread cfg) (k.survivors cfg) =
      { k.survivors cfg with
        schedulers := fun c =>
          if c < n then { (k.survivors cfg).schedulers c with idleThread := some (.idle c) }
          else (k.survivors cfg).schedulers c
        activeContexts := u32 (k.activeContexts + n) } := by
  induction n with
  | zero =>
    have hsame : u32 k.activeContexts = k.activeContexts := Nat.mod_eq_of_lt hcontexts
    simp [survivors, hsame]
  | succ n ih =>
    have htcb : Function.update (k.survivors cfg).tcbs (.idle n) (idleTcb cfg n) =
        (k.survivors cfg).tcbs := Function.update_eq_self (.idle n) (k.survivors cfg).tcbs
    have hcount : u32 (u32 (k.activeContexts + n) + 1) = u32 (k.activeContexts + (n + 1)) :=
      Nat.mod_add_mod ..
    rw [List.range_succ, List.foldl_append, ih, List.foldl_cons, List.foldl_nil, initIdleThread]
    dsimp only [modifySched]
    rw [htcb, hcount]
    congr 1
    funext c
    by_cases hc : c = n
    · subst hc
      simp
    · have hlt : c < n + 1 ↔ c < n := by omega
      simp [hc, hlt]

/-- **`kernel::initialise` after a run** makes the state that the model of a run starts from,
up to the locks of the application and to contexts that are still counted. -/
theorem Kernel.Down.initialise (h : k.Down cfg) (hcontexts : k.activeContexts < 2 ^ 32) :
    k.initialise cfg =
      { initialised cfg with
        activeContexts := u32 (k.activeContexts + cfg.cores), spinlocks := k.spinlocks } := by
  rw [Kernel.initialise, foldl_initIdleThread hcontexts]
  have hready : k.ready.heads (fun _ => true) = Links.empty := Links.heads_eq_empty fun i _ => h.ready i
  have hwaiters : k.waiters.heads WaitableRef.isObject = Links.empty := Links.heads_eq_empty h.waiters
  have hsched : (fun c => if c < cfg.cores then
        { (k.survivors cfg).schedulers c with idleThread := some (.idle c) }
      else (k.survivors cfg).schedulers c) = (Kernel.initialised cfg).schedulers := by
    funext c
    by_cases hc : c < cfg.cores
    · simp only [survivors, if_pos hc]
      rw [h.schedulers c hc]
      rfl
    · simp only [survivors, if_neg hc]
      rfl
  rw [hsched]
  simp only [survivors, hready, hwaiters, h.isRunning, h.activeThreads, h.threadIdGenerator]
  rfl

/-- A scheduler with nothing in it passes the assertions. -/
theorem Scheduler.reset_ok {sched : Scheduler} (hin : sched.inbox = [])
    (hbits : sched.bitmap = 0#32) : sched.reset = .ok { idleThread := sched.idleThread } := by
  simp [Scheduler.reset, hin, hbits]

/-- The loop of `finalise` over the first `n` cores. -/
theorem PortState.foldlM_resetScheduler (n : Nat)
    (h : ∀ c < n, (s.machine.kernel.schedulers c).inbox = [] ∧
      (s.machine.kernel.schedulers c).bitmap = 0#32) :
    (List.range n).foldlM resetScheduler s = .ok { s with
      machine.kernel.schedulers := fun c =>
        if c < n then { idleThread := (s.machine.kernel.schedulers c).idleThread }
        else s.machine.kernel.schedulers c
      poke := fun c => if c < n then false else s.poke c } := by
  induction n with
  | zero => simp [pure, Except.pure]
  | succ n ih =>
    obtain ⟨hin, hbits⟩ := h n (Nat.lt_succ_self n)
    have hlt : ∀ c, c ≠ n → (c < n + 1 ↔ c < n) := fun c hc => by omega
    rw [List.range_succ, List.foldlM_append, ih fun c hc => h c (by omega), ok_bind]
    simp only [List.foldlM_cons, List.foldlM_nil, resetScheduler, Nat.lt_irrefl, if_false,
      Scheduler.reset_ok hin hbits, ok_bind, pure, Except.pure, Kernel.modifySched]
    congr 2
    · congr 2
      funext c
      by_cases hc : c = n
      · subst hc
        simp
      · simp [hc, hlt c hc]
    · funext c
      by_cases hc : c = n
      · subst hc
        simp
      · simp [hc, hlt c hc]

/-- No thread is in a ready queue, an inbox or a wait queue. -/
structure Kernel.Unused (k : Kernel) : Prop where
  ready : ∀ i, k.ready.head i = none ∧ k.ready.tail i = none
  waiters : ∀ w, k.waiters.head w = none ∧ k.waiters.tail w = none
  scheduler : ∀ c, (k.schedulers c).inbox = [] ∧ (k.schedulers c).bitmap = 0#32

/-- **`kernel::finalise` of a kernel without queued threads** passes its assertions. It leaves
the port's counter and the locks of the application as they are. -/
theorem PortState.finalise_ok (cfg : Config) (h : s.machine.kernel.Unused) :
    ∃ s', s.finalise cfg = .ok s' ∧ s'.machine.kernel.Down cfg ∧
      (∀ c < cfg.cores, s'.poke c = false) ∧ s'.shutdown = s.shutdown ∧
      s'.machine.kernel.activeContexts = s.machine.kernel.activeContexts ∧
      s'.machine.kernel.spinlocks = s.machine.kernel.spinlocks := by
  refine ⟨_, foldlM_resetScheduler cfg.cores fun c _ => h.scheduler c, ?_, fun c hc => if_pos hc,
    rfl, rfl, rfl⟩
  refine ⟨h.ready, fun w _ => h.waiters w, fun c hc => ?_, rfl, rfl, rfl⟩
  simp only [if_pos hc]

/-- The state after `kernel::initialise` when `n` contexts are still counted. -/
def PortState.leaked (cfg : Config) (n : Nat) : PortState :=
  { PortState.initial cfg with
    machine.kernel := { Kernel.initialised cfg with activeContexts := n } }

theorem PortState.initialise_eq (hkernel : s.machine.kernel.Down cfg)
    (hpoke : ∀ c < cfg.cores, s.poke c = false) (hshutdown : s.shutdown = false)
    (hlocks : s.machine.kernel.spinlocks = fun _ => false)
    (hcontexts : s.machine.kernel.activeContexts < 2 ^ 32) :
    s.initialise cfg = leaked cfg (u32 (s.machine.kernel.activeContexts + cfg.cores)) := by
  have hpokes : (fun c => decide (c < cfg.cores) && s.poke c) = fun _ => false := by
    funext c
    by_cases hc : c < cfg.cores
    · simp [hpoke c hc]
    · simp [hc]
  rw [PortState.initialise, hkernel.initialise hcontexts, hpokes, hshutdown, hlocks]
  rfl

/-! ## When all cores have returned -/

/-- A mutex is locked only while a core holds it. -/
def MutexHeld (port : Nat → PortPc) (mutex : Nat → Bool) : Prop :=
  ∀ d, mutex d = true → ∃ c, (port c).holds c d = true

namespace MutexHeld

variable {port : Nat → PortPc} {mutex : Nat → Bool} {pc : PortPc}

/-- A core moves and keeps the mutexes it holds. -/
theorem move (h : MutexHeld port mutex)
    (hpc : ∀ d, (port c).holds c d = true → pc.holds c d = true) :
    MutexHeld (Function.update port c pc) mutex := by
  intro d hlocked
  obtain ⟨e, he⟩ := h d hlocked
  refine ⟨e, ?_⟩
  by_cases hc : e = c
  · subst hc
    rw [Function.update_self]
    exact hpc d he
  · rwa [Function.update_of_ne hc]

/-- A core takes the mutex of core `d`. -/
theorem lock (h : MutexHeld port mutex)
    (hpc : ∀ e, (port c).holds c e = true → pc.holds c e = true) (hd : pc.holds c d = true) :
    MutexHeld (Function.update port c pc) (Function.update mutex d true) := by
  intro e hlocked
  by_cases he : e = d
  · subst he
    exact ⟨c, by rwa [Function.update_self]⟩
  · rw [Function.update_of_ne he] at hlocked
    exact h.move hpc e hlocked

/-- A core gives the mutex of core `d` back. -/
theorem unlock (h : MutexHeld port mutex)
    (hpc : ∀ e, e ≠ d → (port c).holds c e = true → pc.holds c e = true) :
    MutexHeld (Function.update port c pc) (Function.update mutex d false) := by
  intro e hlocked
  by_cases he : e = d
  · subst he
    rw [Function.update_self] at hlocked
    cases hlocked
  · rw [Function.update_of_ne he] at hlocked
    obtain ⟨c', hc'⟩ := h e hlocked
    refine ⟨c', ?_⟩
    by_cases hc : c' = c
    · subst hc
      rw [Function.update_self]
      exact hpc e he hc'
    · rwa [Function.update_of_ne hc]

end MutexHeld

theorem PortTrans.mutexHeld {l : Label} (ht : PortTrans cfg s l s') (h : MutexHeld s.port s.mutex) :
    MutexHeld s'.port s'.mutex := by
  -- a core that holds no mutex may go anywhere
  have hfree : ∀ {c pc pc'}, s.port c = pc → (∀ d, pc.holds c d = false) →
      MutexHeld (Function.update s.port c pc') s.mutex := fun {c pc pc'} hpc hnone =>
    h.move fun d hd => by
      rw [hpc, hnone d] at hd
      cases hd
  cases ht with
  | main hl hstep => exact h
  | kernel hpc hstep =>
    rcases hpc with ⟨hpc, -⟩ | hpc <;> exact hfree hpc fun _ => rfl
  | consume hpc hset | miss hpc hset =>
    rcases hpc with ⟨hpc, -⟩ | ⟨hpc, rfl⟩
    · exact hfree hpc fun _ => rfl
    · exact h.move fun d hd => by rwa [hpc] at hd
  | acquire hpc hunlocked =>
    refine h.lock (fun d hd => ?_) (decide_eq_true rfl)
    rcases hpc with hpc | hpc <;>
      · rw [hpc] at hd
        cases hd
  | release hpc =>
    refine h.unlock fun d hd hheld => absurd ?_ hd
    rcases hpc with ⟨hpc, -⟩ | ⟨hpc, -⟩ <;>
      · rw [hpc] at hheld
        exact (of_decide_eq_true hheld).symm
  | spurious hpc | rely hpc | raise hpc | store hpc | announce hpc | follow hpc =>
    exact hfree hpc fun _ => rfl
  | pokeLock hpc hunlocked =>
    refine h.lock (fun d hd => ?_) (decide_eq_true rfl)
    rw [hpc] at hd
    cases hd
  | @signal c d b sender hpc =>
    have hwake : MutexHeld (s.wake d).port (s.wake d).mutex := by
      rw [PortState.wake]
      split
      · next hasleep => exact hfree hasleep fun _ => rfl
      · exact h
    refine hwake.move fun e he => ?_
    rcases s.wake_port d c with hsame | ⟨hasleep, -⟩
    · rw [hsame, hpc] at he
      exact he
    · rw [hpc] at hasleep
      cases hasleep
  | @pokeUnlock c d b sender hpc =>
    refine h.unlock fun e he hheld => absurd ?_ he
    rw [hpc] at hheld
    exact (of_decide_eq_true hheld).symm

/-- What a run respects: threads are constructed with priorities the ready matrix has, and the
counter of contexts does not wrap. -/
def PortState.Counted (cfg : Config) (s : PortState) (l : Label) : Prop :=
  l.Valid cfg ∧ ContextsFit s.machine l

instance {l : Label} : Decidable (s.Counted cfg l) := inferInstanceAs (Decidable (_ ∧ _))

/-- Nothing of the kernel or of the port is in use. -/
structure PortState.Quiet (s : PortState) : Prop where
  kernel : s.machine.kernel.Unused
  mutex : ∀ c, s.mutex c = false

/-- The phases that are left when all threads have finished. -/
theorem Sim.phase_of_finished (h : Sim cfg m a)
    (hfin : ∀ n < m.kernel.threads, m.fiber (.user n) = .finished) (t : ThreadRef) :
    a.phase t = .unborn ∨ a.phase t = .dead ∨
      t.isIdle = true ∧ (a.phase t = .ready ∨ a.phase t = .running) := by
  cases t with
  | idle c =>
    rcases (h.idle c).2.2 with ⟨hunborn, -⟩ | ⟨hborn, -⟩
    · exact .inl hunborn
    · exact .inr (.inr ⟨rfl, hborn⟩)
  | user n =>
    by_cases hn : n < m.kernel.threads
    · exact .inr (.inl (h.dead_of_finished (hfin n hn)))
    · exact .inl ((h.born n).mpr (Nat.le_of_not_lt hn))

/-- The queues are empty when all threads have finished. -/
theorem Sim.unused (h : Sim cfg m a)
    (hfin : ∀ n < m.kernel.threads, m.fiber (.user n) = .finished) : m.kernel.Unused := by
  have hphase := h.phase_of_finished hfin
  have hqueue : ∀ i, a.queue i = [] := fun i => by
    refine List.eq_nil_iff_forall_not_mem.mpr fun t hmem => ?_
    obtain ⟨hready, huser, -, -⟩ := (h.queued i.1 i.2 t).mp hmem
    rcases hphase t with hp | hp | ⟨hidle, -⟩
    · rw [hready] at hp
      cases hp
    · rw [hready] at hp
      cases hp
    · rw [hidle] at huser
      cases huser
  have hwaiters : ∀ w, a.waiters w = [] := fun w => by
    refine List.eq_nil_iff_forall_not_mem.mpr fun n hmem => ?_
    have hheld := (h.waiting.mem w n).mp hmem
    rcases hphase n.owner with hp | hp | ⟨-, hp | hp⟩ <;>
      · rw [hp] at hheld
        cases hheld
  refine ⟨fun i => ?_, fun w => ?_, fun c => ⟨?_, ?_⟩⟩
  · rw [h.ready.links.head, h.ready.links.tail, hqueue]
    exact ⟨rfl, rfl⟩
  · rw [h.waiting.links.head, h.waiting.links.tail, hwaiters]
    exact ⟨rfl, rfl⟩
  · refine List.eq_nil_iff_forall_not_mem.mpr fun t hmem => ?_
    have hbox := (((h.inbox c).2 t).mp hmem).1
    rcases hphase t with hp | hp | ⟨-, hp | hp⟩ <;>
      · rw [hp] at hbox
        cases hbox
  · refine BitVec.eq_of_getLsbD_eq fun p hp => ?_
    rw [h.ready.bitmap, hqueue]
    simp

/-- The cores that there are, and the mutexes, in every run. -/
theorem PortState.Counted.reach (h : (portSystem cfg).ReachVia (PortState.Counted cfg) s) :
    (∀ d, cfg.cores ≤ d → s.port d = .kernel) ∧ MutexHeld s.port s.mutex := by
  refine h.invariant (I := fun s => (∀ d, cfg.cores ≤ d → s.port d = .kernel) ∧
    MutexHeld s.port s.mutex) (fun s hs => ?_) fun s l s' _ hI hadm hstep => ?_
  · cases hs
    exact ⟨fun _ _ => rfl, fun d hlocked => by cases hlocked⟩
  · have ht := PortTrans.of_step hstep
    refine ⟨fun d hd => ?_, ht.mutexHeld hI.2⟩
    rcases l.core_cases d with ⟨act, rfl⟩ | hl
    · exact absurd (PortState.core_lt hstep) (Nat.not_lt.mpr hd)
    · exact ht.port_stays hl (hI.1 d hd) (by simp)

/-- **When all cores have returned, nothing is in use.** -/
theorem PortState.Quiet.returned (h : (portSystem cfg).ReachVia (PortState.Counted cfg) s)
    (hall : ∀ c < cfg.cores, s.port c = .returned) : s.Quiet := by
  have hinv : PortInv cfg s := PortInv.reach h
  obtain ⟨hcores, hheld⟩ := PortState.Counted.reach h
  have hquiescent := hinv.shutdown.leaving 0 (by rw [hall 0 cfg.cores_pos]; rfl)
  obtain ⟨⟨a, hsim⟩, haccounts⟩ := hinv.machine
  have hfin : ∀ n < s.machine.kernel.threads, s.machine.fiber (.user n) = .finished := fun n hn => by
    rcases haccounts.exits (.user n) with hzero | ⟨-, hfin⟩
    · rw [hquiescent.exits haccounts hn] at hzero
      cases hzero
    · exact hfin
  refine ⟨hsim.unused hfin, fun d => ?_⟩
  rw [Bool.eq_false_iff]
  intro hlocked
  obtain ⟨c, hc⟩ := hheld d hlocked
  by_cases hlt : c < cfg.cores
  · rw [hall c hlt] at hc
    cases hc
  · rw [hcores c (Nat.le_of_not_lt hlt)] at hc
    cases hc

/-! ## Sessions -/

/-- How far `main` has come. -/
inductive Stage where
  /-- Before `kernel::initialise`, or after `kernel::finalise`. -/
  | down
  /-- From `kernel::initialise` until `kernel::start` returns. -/
  | up
  /-- After `kernel::start` has returned. -/
  | joined
  deriving DecidableEq, Repr

/-- A program that runs the kernel any number of times. -/
structure Session where
  stage : Stage
  port : PortState

/-- What happens next in a session. -/
inductive SessionLabel where
  | initialise
  /-- A step of `main`, or of a core. -/
  | step (l : Label)
  /-- `kernel::start` returns. -/
  | join
  | finalise
  deriving DecidableEq, Repr

inductive SessionFault where
  | panic (p : RestartPanic)
  | fault (f : Fault)
  | disabled

namespace Session

/-- `kernel::initialise`. -/
def initialise (cfg : Config) (s : Session) : Except RestartPanic Session :=
  if s.stage = .down then .ok ⟨.up, s.port.initialise cfg⟩ else .error .initialised

/-- `kernel::finalise`. -/
def finalise (cfg : Config) (s : Session) : Except RestartPanic Session :=
  if s.stage = .down then .error .notInitialised
  else do
    let port ← s.port.finalise cfg
    return ⟨.down, port⟩

/-- An assertion of the two calls. -/
def asserted : Except RestartPanic Session → Except SessionFault Session
  | .ok s => .ok s
  | .error p => .error (.panic p)

/-- One step of a session. -/
def step (cfg : Config) (s : Session) : SessionLabel → Except SessionFault Session
  | .initialise => asserted (s.initialise cfg)
  | .step l =>
    if s.stage = .up then
      match s.port.step cfg l with
      | .ok port => .ok { s with port }
      | .error f => .error (.fault f)
    else .error .disabled
  | .join =>
    -- Core 0 has returned and the other cores have been joined.
    if s.stage = .up ∧ ∀ c < cfg.cores, s.port.port c = .returned then
      .ok ⟨.joined, s.port.globalReset⟩
    else .error .disabled
  | .finalise => asserted (s.finalise cfg)

/-- Before the first call. -/
def initial (cfg : Config) : Session where
  stage := .down
  port :=
    { machine := { Machine.initial cfg with kernel := Kernel.static cfg }
      port := fun _ => .kernel
      poke := fun _ => false
      pending := fun _ => false
      mutex := fun _ => false
      shutdown := false }

end Session

/-- A program that runs the kernel any number of times, as a transition system. -/
def session (cfg : Config) : Lts Session SessionLabel SessionFault where
  init s := s = Session.initial cfg
  step := Session.step cfg

/-- The calls of `main` are made in turn, and runs are as in one run of the kernel. -/
def Session.Calls (cfg : Config) (s : Session) : SessionLabel → Prop
  | .initialise => s.stage = .down
  | .step l => s.port.Counted cfg l
  | .join => True
  | .finalise => s.stage = .joined

instance {s : Session} : DecidablePred (s.Calls cfg)
  | .initialise | .finalise => inferInstanceAs (Decidable (_ = _))
  | .step l => inferInstanceAs (Decidable (s.port.Counted cfg l))
  | .join => inferInstanceAs (Decidable True)

/-- What a session respects: `main` makes its calls in turn, and when `kernel::start` returns
the locks of the application are free. -/
def Session.Admits (cfg : Config) (s : Session) (l : SessionLabel) : Prop :=
  s.Calls cfg l ∧ (l = .join → ∀ i, s.port.machine.kernel.spinlocks i = false)

/-- What one run has left for the next. -/
structure PortState.Released (s : PortState) : Prop where
  contexts : s.machine.kernel.activeContexts = 0
  shutdown : s.shutdown = false
  spinlocks : ∀ i, s.machine.kernel.spinlocks i = false

/-- What holds in every state of a session. -/
inductive SessionInv (cfg : Config) : Session → Prop
  | down {port : PortState} (hkernel : port.machine.kernel.Down cfg)
    (hpoke : ∀ c < cfg.cores, port.poke c = false) (hreleased : port.Released) :
    SessionInv cfg ⟨.down, port⟩
  | up {port : PortState} (hreach : (portSystem cfg).ReachVia (PortState.Counted cfg) port) :
    SessionInv cfg ⟨.up, port⟩
  | joined {port : PortState} (hquiet : port.Quiet) (hreleased : port.Released) :
    SessionInv cfg ⟨.joined, port⟩

theorem SessionInv.initial (cfg : Config) : SessionInv cfg (Session.initial cfg) :=
  .down (Kernel.static_down cfg) (fun _ _ => rfl) ⟨rfl, rfl, fun _ => rfl⟩

/-- The kernel that a run has left is initialised again. -/
theorem PortState.Released.initialise (h : s.Released) (hcores : cfg.cores < 2 ^ 32)
    (hkernel : s.machine.kernel.Down cfg) (hpoke : ∀ c < cfg.cores, s.poke c = false) :
    s.initialise cfg = PortState.initial cfg := by
  have hcount : u32 (s.machine.kernel.activeContexts + cfg.cores) = cfg.cores := by
    rw [h.contexts, Nat.zero_add]
    exact Nat.mod_eq_of_lt hcores
  rw [PortState.initialise_eq hkernel hpoke h.shutdown (funext h.spinlocks)
    (by rw [h.contexts]; exact Nat.two_pow_pos 32), hcount]
  rfl

/-- A kernel whose cores have returned passes the assertions of `finalise`. -/
theorem PortState.Quiet.finalise (cfg : Config) (h : s.Quiet) (hreleased : s.Released) :
    ∃ s', s.finalise cfg = .ok s' ∧ SessionInv cfg ⟨.down, s'⟩ := by
  obtain ⟨s', hok, hdown, hpoke, hshutdown, hcontexts, hlocks⟩ :=
    PortState.finalise_ok cfg h.kernel
  refine ⟨s', hok, .down hdown hpoke ⟨hcontexts.trans hreleased.contexts,
    hshutdown.trans hreleased.shutdown, fun i => ?_⟩⟩
  rw [hlocks]
  exact hreleased.spinlocks i

theorem Session.asserted_ok {x : Except RestartPanic Session} {s : Session}
    (h : Session.asserted x = .ok s) : x = .ok s := by
  cases x with
  | ok s' =>
    cases h
    rfl
  | error p => cases h

/-- **Step lemma.** -/
theorem SessionInv.step {s s' : Session} {l : SessionLabel} (h : SessionInv cfg s)
    (hcores : cfg.cores < 2 ^ 32) (hadm : s.Admits cfg l) (hs : s.step cfg l = .ok s') :
    SessionInv cfg s' := by
  cases l with
  | initialise =>
    have hok := Session.asserted_ok hs
    cases h with
    | down hkernel hpoke hreleased =>
      rw [Session.initialise, if_pos rfl, hreleased.initialise hcores hkernel hpoke] at hok
      cases hok
      exact .up (.init rfl)
    | up hreach => cases hok
    | joined hquiet hreleased => cases hok
  | step l =>
    cases h with
    | up hreach =>
      rw [Session.step, if_pos rfl] at hs
      split at hs
      · next port hstep =>
        cases hs
        exact .up (hreach.step hadm.1 hstep)
      · cases hs
    | down hkernel hpoke hreleased => cases hs
    | joined hquiet hreleased => cases hs
  | join =>
    rw [Session.step] at hs
    split at hs
    · next hret =>
      cases hs
      cases h with
      | up hreach =>
        obtain ⟨⟨hready, hwaiters, hsched⟩, hmutex⟩ := PortState.Quiet.returned hreach hret.2
        exact .joined ⟨⟨hready, hwaiters, hsched⟩, hmutex⟩ ⟨rfl, rfl, hadm.2 rfl⟩
      | down hkernel hpoke hreleased => cases hret.1
      | joined hquiet hreleased => cases hret.1
    · cases hs
  | finalise =>
    have hok := Session.asserted_ok hs
    cases h with
    | joined hquiet hreleased =>
      obtain ⟨port, hport, hinv⟩ := hquiet.finalise cfg hreleased
      rw [Session.finalise, if_neg (by simp), hport] at hok
      cases hok
      exact hinv
    | down hkernel hpoke hreleased => cases hok
    | up hreach => cases hadm.1

/-- **Run lemma.** -/
theorem SessionInv.reach {s : Session} (hcores : cfg.cores < 2 ^ 32)
    (h : (session cfg).ReachVia (Session.Admits cfg) s) : SessionInv cfg s := by
  refine h.invariant (fun s hs => ?_) fun s l s' _ hinv hadm hstep => hinv.step hcores hadm hstep
  cases hs
  exact SessionInv.initial cfg

/-- What a program that runs the kernel any number of times can rely on. -/
structure Session.Fresh (cfg : Config) (s : Session) : Prop where
  /-- `kernel::initialise` makes the state that the model of one run starts from. -/
  initialise : s.stage = .down → s.initialise cfg = .ok ⟨.up, PortState.initial cfg⟩
  /-- Until `kernel::start` returns, the program is in a run that starts there. -/
  up : s.stage = .up → (portSystem cfg).ReachVia (PortState.Counted cfg) s.port
  /-- No mutex is locked when the cores are destroyed, and the assertions of
  `kernel::finalise` hold. -/
  finalise : s.stage = .joined → (∀ c, s.port.mutex c = false) ∧
    ∃ s', s.finalise cfg = .ok s' ∧ s'.stage = .down

/-- The assertions that the loop of `finalise` has passed. -/
theorem PortState.foldlM_resetScheduler_ok (n : Nat)
    (h : (List.range n).foldlM resetScheduler s = .ok s') :
    ∀ c < n, (s.machine.kernel.schedulers c).inbox = [] ∧
      (s.machine.kernel.schedulers c).bitmap = 0#32 := by
  induction n generalizing s' with
  | zero => exact fun c hc => absurd hc (Nat.not_lt_zero c)
  | succ n ih =>
    rw [List.range_succ, List.foldlM_append, bind_ok] at h
    obtain ⟨s₁, hloop, hlast⟩ := h
    have hfirst := ih hloop
    rw [foldlM_resetScheduler n hfirst] at hloop
    cases hloop
    rw [List.foldlM_cons, bind_ok] at hlast
    obtain ⟨s₂, hreset, -⟩ := hlast
    rw [resetScheduler, bind_ok] at hreset
    obtain ⟨sched, hsched, -⟩ := hreset
    simp only [Nat.lt_irrefl, if_false, Scheduler.reset] at hsched
    intro c hc
    rcases Nat.lt_succ_iff_lt_or_eq.mp hc with hc | rfl
    · exact hfirst c hc
    · split at hsched
      · cases hsched
      · next hin =>
        split at hsched
        · cases hsched
        · next hbits =>
          exact ⟨List.length_eq_zero_iff.mp (not_not.mp hin), not_not.mp hbits⟩

/-- Before `kernel::start` all threads are in the ready matrix. -/
theorem PortState.unstarted (h : (portSystem cfg).ReachVia (fun _ l => l.Valid cfg) s) :
    ∃ a, Sim cfg s.machine a ∧ (s.machine.kernel.isRunning = false →
      ∀ n < s.machine.kernel.threads, a.phase (.user n) = .ready) := by
  refine h.invariant (I := fun s => ∃ a, Sim cfg s.machine a ∧ (s.machine.kernel.isRunning = false →
    ∀ n < s.machine.kernel.threads, a.phase (.user n) = .ready)) (fun s hs => ?_)
    fun s l s' _ hI hvalid hstep => ?_
  · cases hs
    exact ⟨_, Sim.initial cfg, fun _ n hn => absurd hn (Nat.not_lt_zero n)⟩
  · obtain ⟨a, hsim, hready⟩ := hI
    rcases (PortTrans.of_step hstep).machine with hsame | hstep'
    · rw [hsame]
      exact ⟨a, hsim, hready⟩
    · obtain ⟨a', ht⟩ := hsim.trans hvalid hstep'
      refine ⟨a', ht.sim hsim, fun hrun n hn => ?_⟩
      cases l with
      | construct priority affinity =>
        generalize hm : s'.machine = m' at *
        cases ht with
        | @constructBoot _ _ d hstopped hd hprio =>
          by_cases hx : n = s.machine.kernel.threads
          · rw [hx]
            exact Function.update_self ..
          · refine (Function.update_of_ne (by simp [hx]) ..).trans (hready hstopped n ?_)
            have hn' : n < s.machine.kernel.threads + 1 := hn
            omega
      | start =>
        generalize hm : s'.machine = m' at *
        cases ht
        cases hrun
      | core c act =>
        have hrunning := Machine.running_of_core hstep'
        rcases ht.isRunning with hsame | ⟨-, hstarted⟩
        · rw [hrun, hrunning] at hsame
          cases hsame
        · rw [hrun] at hstarted
          cases hstarted

/-- **`kernel::finalise` before `kernel::start`** fails its assertion if a thread has been
constructed, and only then. -/
theorem finalise_unstarted (h : (portSystem cfg).ReachVia (fun _ l => l.Valid cfg) s)
    (hrun : s.machine.kernel.isRunning = false) :
    (∃ s', s.finalise cfg = .ok s') ↔ s.machine.kernel.threads = 0 := by
  obtain ⟨a, hsim, hready⟩ := PortState.unstarted h
  constructor
  · rintro ⟨s', hok⟩
    by_contra hthreads
    have hphase := hready hrun 0 (Nat.pos_of_ne_zero hthreads)
    have hmem := (hsim.queued _ _ (.user 0)).mpr ⟨hphase, rfl, rfl, rfl⟩
    have hpin := (hsim.thread (.user 0)).core_lt (by rw [hphase]; simp)
    have hbits := (PortState.foldlM_resetScheduler_ok cfg.cores hok _ hpin).2
    have hbit := hsim.ready.bitmap (s.machine.kernel.pinnedCore (.user 0))
      (s.machine.kernel.priority (.user 0))
    rw [hbits, List.isEmpty_eq_false_iff.mpr (List.ne_nil_of_mem hmem)] at hbit
    simp at hbit
  · intro hthreads
    have hunused := hsim.unused fun n hn => by
      rw [hthreads] at hn
      exact absurd hn (Nat.not_lt_zero n)
    obtain ⟨s', hok, -⟩ := PortState.finalise_ok cfg hunused
    exact ⟨s', hok⟩

/-- One thread is constructed. -/
def oneRegistered : (portSystem oneCore).Run 1 :=
  .ofLabels (PortState.initial oneCore) [.construct 5 1#32] .start rfl (by decide +kernel)

theorem registered_not_finalised :
    (∃ s', (oneRegistered.state 0).finalise oneCore = .ok s') ∧
      ¬ ∃ s', (oneRegistered.state 1).finalise oneCore = .ok s' := by
  have hreach := oneRegistered.reachVia (C := fun _ l => l.Valid oneCore) (by decide +kernel)
  refine ⟨(finalise_unstarted (hreach 0 (by decide)) rfl).mpr rfl, fun hok => ?_⟩
  have hthreads := (finalise_unstarted (hreach 1 (by decide)) (by decide +kernel)).mp hok
  exact absurd hthreads (by decide +kernel)

/-- The threads that have not called `cortos_port_thread_exit`. -/
def Machine.liveThreads (m : Machine) : Nat :=
  ((Finset.range m.kernel.threads).filter fun n => m.exits (.user n) = 0).card

/-- The counter moves with the number of threads that have not exited, whatever it was
before. -/
theorem Trans.liveThreads {l : Label} {n : Nat} (ht : Trans cfg m a l m' a') (hsim : Sim cfg m a)
    (hexits : ExitsOnce m) (hfit : ContextsFit m l)
    (hactive : m.kernel.activeContexts = n + m.liveThreads) :
    m'.kernel.activeContexts = n + m'.liveThreads := by
  rw [Machine.liveThreads] at *
  cases ht.contexts with
  | init hl hcaller hthreads hactive' hexits' =>
    have hnew : m.exits (.user m.kernel.threads) = 0 := hexits.not_exited fun hfin => by
      obtain ⟨i, hi, heq⟩ := hsim.exiting_user (t := .user m.kernel.threads) (by rw [hfin]; rfl)
      cases heq
      exact absurd hi (Nat.lt_irrefl _)
    rw [hactive', hthreads, hexits', card_uncalled_succ hnew, u32, Nat.mod_eq_of_lt (hfit hl),
      hactive, Nat.add_assoc]
  | @exit t hact hpc hpc' hthreads hactive' hexits' =>
    obtain ⟨i, hi, rfl⟩ := hsim.exiting_user (t := t) (by rw [hpc]; rfl)
    have hzero : m.exits (.user i) = 0 := hexits.not_exited (by simp [hpc])
    have hpos : 0 < ((Finset.range m.kernel.threads).filter
        fun i => m.exits (.user i) = 0).card :=
      Finset.card_pos.mpr ⟨i, by simp [hi, hzero]⟩
    rw [hactive', hthreads, hexits', card_uncalled_update hi hzero, hactive]
    omega
  | stay hthreads hactive' hexits' => rw [hactive', hthreads, hexits', hactive]

/-- A core is on its way out when its pump loop has ended. -/
theorem PortTrans.leaves {l : Label} (ht : PortTrans cfg s l s')
    (hleaving : (s'.port c).leaving = true) : (s.port c).leaving = true ∨
      (∃ act, l = .core c act) ∧ s.machine.step cfg l = .ok s'.machine ∧
        s'.machine.core c = .halted := by
  rcases l.core_cases c with ⟨act, rfl⟩ | hl
  · cases ht with
    | main hl hstep => exact absurd rfl (hl c act)
    | @kernel _ _ m' hpc hstep =>
      simp only [PortState.goto, Function.update_self] at hleaving
      rcases PortState.afterKernel_cases s.machine m' c with ⟨d, hpc⟩ | ⟨-, hhalted⟩ | hpc
      · rw [hpc] at hleaving
        cases hleaving
      · exact .inr ⟨⟨act, rfl⟩, hstep, hhalted⟩
      · rw [hpc] at hleaving
        cases hleaving
    | consume hpc hpending | miss hpc hpending =>
      simp only [PortState.goto, Function.update_self] at hleaving
      rcases hpc with ⟨-, -, rfl⟩ | ⟨-, rfl⟩ <;> cases hleaving
    | release hpc =>
      simp only [PortState.goto, Function.update_self] at hleaving
      rcases hpc with ⟨-, rfl⟩ | ⟨-, rfl⟩ <;> cases hleaving
    | acquire hpc | spurious hpc | rely hpc | raise hpc =>
      simp only [PortState.goto, Function.update_self] at hleaving
      cases hleaving
    | @store _ d b sender hpc | @pokeLock _ d b sender hpc | @signal _ d b sender hpc =>
      simp only [PortState.goto, Function.update_self] at hleaving
      rw [hpc]
      exact .inl (by cases sender <;> exact hleaving)
    | @pokeUnlock _ d b sender hpc =>
      simp only [PortState.goto, Function.update_self] at hleaving
      rw [hpc]
      exact .inl (by cases sender <;> first | rfl | exact hleaving)
    | announce hpc | follow hpc =>
      rw [hpc]
      exact .inl rfl
  · rcases ht.port_of_ne hl with hsame | ⟨-, hwoken⟩
    · rw [hsame] at hleaving
      exact .inl hleaving
    · rw [hwoken] at hleaving
      cases hleaving

/-- What holds in every run that starts with more contexts than cores. -/
structure LeakInv (cfg : Config) (n : Nat) (s : PortState) : Prop where
  sim : ∃ a, Sim cfg s.machine a
  exits : ExitsOnce s.machine
  active : s.machine.kernel.activeContexts = n + s.machine.liveThreads
  stays : ∀ c, (s.port c).leaving = false

theorem LeakInv.initial (cfg : Config) (n : Nat) : LeakInv cfg n (PortState.leaked cfg n) := by
  have h := Sim.initial cfg
  refine ⟨⟨Life.initial cfg, ?_⟩, fun _ => .inl rfl, rfl, fun _ => rfl⟩
  exact ⟨h.ready.congr rfl fun _ => rfl, h.queued, h.waiting.congr rfl fun _ => rfl,
    fun u => (h.thread u).frame rfl rfl rfl (fun _ => Nat.le_refl _) Iff.rfl fun _ => id,
    h.born, h.idle, h.boot, h.current, h.inbox, h.claims⟩

/-- **Step lemma**: a pump loop ends only when the counter is down to the number of cores. -/
theorem LeakInv.step {l : Label} {n : Nat} (h : LeakInv cfg n s) (hn : cfg.cores < n)
    (hcounted : s.Counted cfg l) (hs : s.step cfg l = .ok s') : LeakInv cfg n s' := by
  obtain ⟨a, hsim⟩ := h.sim
  have ht := PortTrans.of_step hs
  have hleaves : ∀ c, (s'.port c).leaving = false := fun c => by
    rw [Bool.eq_false_iff]
    intro hleaving
    rcases ht.leaves hleaving with hold | ⟨⟨act, rfl⟩, hstep, hhalted⟩
    · rw [h.stays c] at hold
      cases hold
    · obtain ⟨a', ht'⟩ := hsim.trans hcounted.1 hstep
      have hle := (ht'.halted hhalted).2
      have hactive := h.active
      omega
  rcases ht.machine with hsame | hstep
  · refine ⟨?_, ?_, ?_, hleaves⟩ <;> rw [hsame]
    · exact ⟨a, hsim⟩
    · exact h.exits
    · exact h.active
  · obtain ⟨a', ht'⟩ := hsim.trans hcounted.1 hstep
    exact ⟨⟨a', ht'.sim hsim⟩, h.exits.step ht' hstep,
      ht'.liveThreads hsim h.exits hcounted.2 h.active, hleaves⟩

/-- `kernel::initialise`, and then `kernel::finalise` and `kernel::initialise` without a
`kernel::start` in between. -/
def Session.abandon (cfg : Config) : Except RestartPanic Session := do
  let s₁ ← Session.finalise cfg ⟨.up, PortState.initial cfg⟩
  s₁.initialise cfg

/-- The idle contexts of the abandoned kernel are still counted. -/
theorem Session.abandon_eq (hcores : 2 * cfg.cores < 2 ^ 32) :
    Session.abandon cfg = .ok ⟨.up, PortState.leaked cfg (2 * cfg.cores)⟩ := by
  have hunused : (PortState.initial cfg).machine.kernel.Unused :=
    ⟨fun _ => ⟨rfl, rfl⟩, fun _ => ⟨rfl, rfl⟩, fun _ => ⟨rfl, rfl⟩⟩
  obtain ⟨s₁, hok, hdown, hpoke, hshutdown, hcontexts, hlocks⟩ :=
    PortState.finalise_ok cfg hunused
  have hcontexts₁ : s₁.machine.kernel.activeContexts = cfg.cores := hcontexts
  have hcount : u32 (s₁.machine.kernel.activeContexts + cfg.cores) = 2 * cfg.cores := by
    rw [hcontexts₁, ← Nat.two_mul]
    exact Nat.mod_eq_of_lt hcores
  have hstart := PortState.initialise_eq hdown hpoke hshutdown hlocks (by omega)
  rw [hcount] at hstart
  rw [Session.abandon, Session.finalise, if_neg (by simp), hok, ok_bind, pure_bind,
    Session.initialise, if_pos rfl, hstart]

/-- **After a kernel has been finalised without having been started, `kernel::start` does not
return**: no core ever leaves its pump loop, whatever the threads do. -/
theorem abandoned_start_hangs (hcores : 2 * cfg.cores < 2 ^ 32) :
    ∃ s₀, Session.abandon cfg = .ok ⟨.up, s₀⟩ ∧
      ∀ s, ({ portSystem cfg with init := (· = s₀) }).ReachVia (PortState.Counted cfg) s →
        ∀ c, s.port c ≠ .returned ∧ cfg.cores < s.machine.kernel.activeContexts := by
  refine ⟨_, Session.abandon_eq hcores, fun s h c => ?_⟩
  have hpos := cfg.cores_pos
  have hinv : LeakInv cfg (2 * cfg.cores) s := by
    refine h.invariant (fun s hs => ?_) fun s l s' _ hinv hcounted hstep =>
      hinv.step (by omega) hcounted hstep
    rw [show s = _ from hs]
    exact LeakInv.initial cfg _
  refine ⟨fun hret => ?_, ?_⟩
  · have hleaving := hinv.stays c
    rw [hret] at hleaving
    cases hleaving
  · rw [hinv.active]
    omega

theorem abandoned_start_hangs_oneCore :
    ∃ s₀, Session.abandon oneCore = .ok ⟨.up, s₀⟩ ∧
      ∀ s, ({ portSystem oneCore with init := (· = s₀) }).ReachVia (PortState.Counted oneCore) s →
        ∀ c, s.port c ≠ .returned ∧ oneCore.cores < s.machine.kernel.activeContexts :=
  abandoned_start_hangs (by decide)

end Cortos
