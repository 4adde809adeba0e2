import Cortos.Kernel.ReadyMatrix
import Cortos.Kernel.WaitNodes

/-!
# Schedulers and thread bookkeeping

`Scheduler` (`scheduler.cpp`) and the parts of `Kernel` and of the port that a
thread's life goes through: construction, pinning, readying, dispatch, exit
(`kernel.cpp:119–242`, `port_linux_boost.cpp`).

`reschedule` appears here in its three parts, because other cores can act
between them: the assertions at its head, one round of `drain_inbox`, and
everything from the switch over the outgoing thread's state on.

Each operation has a lemma that gives its result in closed form where it
succeeds, so that later proofs never unfold it.
-/

namespace Cortos

open Lib

/-- `Scheduler::INBOX_CAP`. -/
def inboxCap : Nat := 64

/-- `Scheduler::IDLE_THREAD_ID`. -/
def idleThreadId : Nat := 0

/-! ## `Scheduler` -/

namespace Scheduler

/-- `Scheduler::current_thread_priority`. -/
def currentThreadPriority (k : Kernel) (c : Nat) : Nat :=
  match k.current c with
  | some t => k.priority t
  | none => 0

/-- `Scheduler::set_thread_ready`. -/
def setThreadReady (cfg : Config) (k : Kernel) (c : Nat) (t : ThreadRef) :
    Except Panic Kernel := do
  cortosAssert ((k.tcbs t).pinnedCore == c) .setReadyPinnedCore
  let k' := k.setState t .ready
  if (k.schedulers c).idleThread = some t then return k'
  k'.enqueueThread cfg c t

/-- `Scheduler::post_to_inbox`: whether the request was accepted. -/
def postToInbox (k : Kernel) (c : Nat) (t : ThreadRef) : Bool × Kernel :=
  if (k.schedulers c).inbox.length < inboxCap then
    (true, k.modifySched c fun s => { s with inbox := s.inbox ++ [t] })
  else (false, k)

/-- `Scheduler::pin_thread`. -/
def pinThread (k : Kernel) (c : Nat) (t : ThreadRef) : Kernel :=
  (k.modifyTcb t fun b => { b with pinnedCore := c }).modifySched c fun s =>
    { s with pinnedThreadCounter := u32 (s.pinnedThreadCounter + 1) }

/-- `pop_best_thread`, or the idle thread when the matrix is empty. -/
def popNext (k : Kernel) (c : Nat) : Except Panic (ThreadRef × Kernel) :=
  match k.popBestThread c, (k.schedulers c).idleThread with
  | (some t, k'), _ => .ok (t, k')
  | (none, k'), some idle => .ok (idle, k')
  | (none, _), none => .error .startNoIdleThread

/-- `current_thread = t; t->state = Running`. -/
def dispatch (k : Kernel) (c : Nat) (t : ThreadRef) : Kernel :=
  (k.setState t .running).modifySched c fun s => { s with currentThread := some t }

/-- `Scheduler::start`: the thread to start first. -/
def start (k : Kernel) (c : Nat) : Except Panic (ThreadRef × Kernel) := do
  cortosAssert (k.schedulers c).idleThread.isSome .startNoIdleThread
  let (first, k') ← popNext k c
  cortosAssert (k'.state first == .ready) .startFirstNotReady
  return (first, dispatch k' c first)

/-- The assertions at the head of `Scheduler::reschedule`. -/
def rescheduleEntry (k : Kernel) (c : Nat) : Except Panic Unit :=
  match k.current c with
  | none => .error .reschedNoCurrent
  | some t => do
    cortosAssert (!k.ready.isEnqueued t) .reschedCurrentEnqueued
    cortosAssert (k.state t != .ready) .reschedCurrentReady

/-- One round of `Scheduler::drain_inbox`; `none` when `pop` fails. -/
def drainOne (cfg : Config) (k : Kernel) (c : Nat) : Except Panic (Option Kernel) :=
  match (k.schedulers c).inbox with
  | [] => .ok none
  | t :: rest => do
    let k' ← setThreadReady cfg (k.modifySched c fun s => { s with inbox := rest }) c t
    return some k'

/-- The switch over `previous_thread->state` in `Scheduler::reschedule`. -/
def rotate (cfg : Config) (k : Kernel) (c : Nat) (previous : ThreadRef) : Except Panic Kernel :=
  match k.state previous with
  | .running => setThreadReady cfg k c previous
  | .blocked | .terminated => .ok k
  | .ready => .error .reschedUnreachable

/-- `Scheduler::reschedule` from that switch on: the thread to switch to. -/
def switchThread (cfg : Config) (k : Kernel) (c : Nat) : Except Panic (ThreadRef × Kernel) :=
  match k.current c with
  | none => .error .reschedNoCurrent
  | some previous => do
    let k' ← rotate cfg k c previous
    let (next, k'') ← popNext k' c
    return (next, dispatch k'' c next)

/-- `Scheduler::enable_preemption`. -/
def enablePreemption (k : Kernel) (c : Nat) : Except Panic Kernel := do
  cortosAssert (decide (0 < (k.schedulers c).preemptDisableDepth)) .preemptNotDisabled
  return k.modifySched c fun s => { s with preemptDisableDepth := s.preemptDisableDepth - 1 }

theorem enablePreemption_ok {k k' : Kernel} {c : Nat} : enablePreemption k c = .ok k' ↔
    0 < (k.schedulers c).preemptDisableDepth ∧ k' = k.modifySched c fun s =>
      { s with preemptDisableDepth := s.preemptDisableDepth - 1 } := by
  simp only [enablePreemption, bind_ok, cortosAssert_ok, exists_const, decide_eq_true_eq, pure,
    Except.pure, Except.ok.injEq]
  exact and_congr_right fun _ => eq_comm

/-- `Scheduler::disable_preemption`. -/
def disablePreemption (k : Kernel) (c : Nat) : Kernel :=
  k.modifySched c fun s => { s with preemptDisableDepth := u32 (s.preemptDisableDepth + 1) }

end Scheduler

/-! ## `Kernel` -/

namespace Kernel

/-- `Kernel::set_thread_ready`, called on core `thisCore`. -/
def setThreadReady (cfg : Config) (k : Kernel) (thisCore : Nat) (t : ThreadRef) :
    Except Panic (ReadyAction × Kernel) := do
  cortosAssert (k.state t != .terminated) .setReadyTerminated
  let core := (k.tcbs t).pinnedCore
  if !k.isRunning then
    let k' ← Scheduler.setThreadReady cfg k core t
    return (.none, k')
  else if thisCore = core then
    let k' ← Scheduler.setThreadReady cfg k core t
    if k'.priority t < Scheduler.currentThreadPriority k' core then
      return (.reschedule, k')
    else return (.none, k')
  else
    let (posted, k') := Scheduler.postToInbox k core t
    cortosAssert posted .setReadyNotPosted
    return (.none, k')

/-- `CoreAffinity::allows`. -/
def allows (affinity : BitVec 32) (core : Nat) : Bool :=
  affinity &&& (1#32 <<< core) != 0#32

/-- One round of the loop of `pin_thread_to_core`, over the best core and load
so far. -/
def pinCandidate (k : Kernel) (affinity : BitVec 32) (best : Option Nat × Nat) (core : Nat) :
    Option Nat × Nat :=
  if allows affinity core && decide ((k.schedulers core).pinnedThreadCounter < best.2) then
    (some core, (k.schedulers core).pinnedThreadCounter)
  else best

/-- `Kernel::pin_thread_to_core`. -/
def pinThreadToCore (cfg : Config) (k : Kernel) (t : ThreadRef) : Except Panic Kernel :=
  match ((List.range cfg.cores).foldl (k.pinCandidate (k.tcbs t).affinity)
      (none, 2 ^ 32 - 1)).1 with
  | none => .error .affinityAllowsNoCore
  | some core => .ok (Scheduler.pinThread k core t)

/-- The thread control block of a new `Thread`. -/
def newTcb (cfg : Config) (t : ThreadRef) (id priority : Nat) (affinity : BitVec 32) : Tcb where
  id := id
  effectivePriority := priority
  affinity := affinity
  waitNodes := WaitNodePool.create cfg.maxWaitNodes t

/-- The constructor of `Thread` up to the pinning: the id is drawn, the control
block and its port context are built, the thread is counted. -/
def addThread (cfg : Config) (k : Kernel) (priority : UInt8) (affinity : BitVec 32) : Kernel :=
  let t := ThreadRef.user k.threads
  { k with
    tcbs := Function.update k.tcbs t
      (newTcb cfg t k.threadIdGenerator priority.toNat affinity)
    threads := k.threads + 1
    threadIdGenerator := u32 (k.threadIdGenerator + 1)
    activeContexts := u32 (k.activeContexts + 1)
    activeThreads := u32 (k.activeThreads + 1) }

/-- The constructor of `Thread` up to `register_thread`'s call of
`set_thread_ready`. -/
def construct (cfg : Config) (k : Kernel) (priority : UInt8) (affinity : BitVec 32) :
    Except Panic Kernel :=
  pinThreadToCore cfg (k.addThread cfg priority affinity) (.user k.threads)

/-- `Kernel::unregister_thread`. -/
def unregisterThread (k : Kernel) : Except Panic Kernel := do
  cortosAssert (k.activeThreads != 0) .unregisterNoThreads
  return { k with activeThreads := k.activeThreads - 1 }

/-- `cortos_port_thread_exit`. -/
def threadExit (k : Kernel) : Except Panic Kernel := do
  cortosAssert (k.activeContexts != 0) .exitNoContexts
  return { k with activeContexts := k.activeContexts - 1 }

/-- `Kernel::start`. -/
def start (k : Kernel) : Except Panic Kernel := do
  cortosAssert (decide (0 < k.activeThreads)) .startNoThreads
  return { k with isRunning := true }

/-- `Scheduler::init_idle_thread` of core `c`: the idle thread. -/
def idleTcb (cfg : Config) (c : Nat) : Tcb :=
  { newTcb cfg (.idle c) idleThreadId (cfg.maxPriorities - 1) (1#32 <<< c) with
    pinnedCore := c }

/-- The kernel after `Kernel::initialise`. The blocks of threads that have not
been constructed are arbitrary, here as a constructor would leave them. -/
def initialised (cfg : Config) : Kernel where
  tcbs
    | .idle c => idleTcb cfg c
    | .user n => newTcb cfg (.user n) 0 0 0#32
  ready := Links.empty
  waiters := Links.empty
  schedulers c := { idleThread := some (.idle c) }
  threads := 0
  isRunning := false
  activeThreads := 0
  threadIdGenerator := 1
  activeContexts := cfg.cores
  spinlocks _ := false

end Kernel

/-! ## Effects in closed form -/

/-- The kernel after core `c` has made its thread `t` ready. -/
def Kernel.makeReady (k : Kernel) (c : Nat) (t : ThreadRef) : Kernel :=
  (k.setState t .ready).linkReady c t

/-- The kernel after `t` has been posted to the inbox of core `c`. -/
def Kernel.post (k : Kernel) (c : Nat) (t : ThreadRef) : Kernel :=
  k.modifySched c fun s => { s with inbox := s.inbox ++ [t] }

/-- Whether the current thread of core `c` has to make way for `t`. -/
def Kernel.preempts (k : Kernel) (c : Nat) (t : ThreadRef) : Bool :=
  decide (k.priority t < Scheduler.currentThreadPriority k c)

/-- The kernel after a thread has been constructed and pinned to core `c`. -/
def Kernel.constructed (cfg : Config) (k : Kernel) (priority : UInt8) (affinity : BitVec 32)
    (c : Nat) : Kernel :=
  Scheduler.pinThread (k.addThread cfg priority affinity) c (.user k.threads)

/-- The pinning loop ends with a core it has visited. -/
theorem Kernel.foldl_pinCandidate (k : Kernel) (affinity : BitVec 32) (cs : List Nat) :
    ∀ best : Option Nat × Nat, (cs.foldl (k.pinCandidate affinity) best).1 = best.1 ∨
      ∃ c ∈ cs, (cs.foldl (k.pinCandidate affinity) best).1 = some c := by
  induction cs with
  | nil => exact fun _ => .inl rfl
  | cons c cs ih =>
    intro best
    rw [List.foldl_cons]
    rcases ih (k.pinCandidate affinity best c) with h | ⟨d, hd, h⟩
    · rw [h, Kernel.pinCandidate]
      split
      · exact .inr ⟨c, by simp, rfl⟩
      · exact .inl rfl
    · exact .inr ⟨d, by simp [hd], h⟩

/-- A thread is constructed on some core, unless its affinity allows none. -/
theorem Kernel.construct_cases (cfg : Config) (k : Kernel) (priority : UInt8)
    (affinity : BitVec 32) :
    k.construct cfg priority affinity = .error .affinityAllowsNoCore ∨
      ∃ c < cfg.cores, k.construct cfg priority affinity =
        .ok (k.constructed cfg priority affinity c) := by
  rw [Kernel.construct, Kernel.pinThreadToCore]
  generalize hb : ((List.range cfg.cores).foldl _ _ : Option Nat × Nat).1 = best
  cases best with
  | none => exact .inl rfl
  | some c =>
    rcases (k.addThread cfg priority affinity).foldl_pinCandidate
        ((k.addThread cfg priority affinity).tcbs (.user k.threads)).affinity
        (List.range cfg.cores) (none, 2 ^ 32 - 1) with h | ⟨d, hd, h⟩
    · rw [hb] at h
      cases h
    · rw [hb] at h
      cases h
      exact .inr ⟨c, List.mem_range.mp hd, rfl⟩

/-- `Scheduler::set_thread_ready` on an unlinked thread of its core. -/
theorem Scheduler.setThreadReady_eq {cfg : Config} {k : Kernel} {c : Nat} {t : ThreadRef}
    (hpin : (k.tcbs t).pinnedCore = c) (hidle : (k.schedulers c).idleThread ≠ some t)
    (hprio : k.priority t < cfg.maxPriorities) (hlink : k.ready.isEnqueued t = false) :
    Scheduler.setThreadReady cfg k c t = .ok (k.makeReady c t) := by
  have henq : (k.setState t .ready).enqueueThread cfg c t = .ok (k.makeReady c t) := by
    rw [Kernel.enqueueThread_ok]
    refine ⟨⟨?_, ?_, hlink⟩, rfl⟩
    · simpa [Kernel.priority, Kernel.setState, Kernel.modifyTcb] using hprio
    · simp [Kernel.state, Kernel.setState, Kernel.modifyTcb]
  simp [Scheduler.setThreadReady, hpin, hidle, henq]

/-- `Scheduler::set_thread_ready` on the idle thread. -/
theorem Scheduler.setThreadReady_idle {cfg : Config} {k : Kernel} {c : Nat} {t : ThreadRef}
    (hpin : (k.tcbs t).pinnedCore = c) (hidle : (k.schedulers c).idleThread = some t) :
    Scheduler.setThreadReady cfg k c t = .ok (k.setState t .ready) := by
  simp [Scheduler.setThreadReady, hpin, hidle, pure, Except.pure]

/-- Whether `t` preempts depends on the priorities and the current thread alone. -/
theorem Kernel.preempts_congr {k k' : Kernel} {c : Nat}
    (hprio : ∀ u, k'.priority u = k.priority u) (hcur : k'.current c = k.current c)
    (t : ThreadRef) : k'.preempts c t = k.preempts c t := by
  rw [Kernel.preempts, Kernel.preempts, Scheduler.currentThreadPriority,
    Scheduler.currentThreadPriority, hcur]
  cases k.current c <;> simp only [hprio]

theorem Kernel.preempts_makeReady (k : Kernel) (c d : Nat) (t : ThreadRef) :
    (k.makeReady d t).preempts c t = k.preempts c t := by
  have hprio : ∀ u, (k.makeReady d t).priority u = k.priority u := fun u => by
    by_cases hu : u = t
    · subst hu
      simp [Kernel.makeReady, Kernel.linkReady, Kernel.priority, Kernel.setState, Kernel.modifyTcb]
    · simp [Kernel.makeReady, Kernel.linkReady, Kernel.priority, Kernel.setState, Kernel.modifyTcb,
        hu]
  have hcur : (k.makeReady d t).current c = k.current c := by
    by_cases hc : c = d
    · subst hc
      simp [Kernel.makeReady, Kernel.linkReady, Kernel.current, Kernel.setState, Kernel.modifyTcb]
    · simp [Kernel.makeReady, Kernel.linkReady, Kernel.current, Kernel.setState, Kernel.modifyTcb,
        hc]
  exact Kernel.preempts_congr hprio hcur t

/-- `Kernel::set_thread_ready` on a thread of the calling core. -/
theorem Kernel.setThreadReady_own {cfg : Config} {k : Kernel} {c : Nat} {t : ThreadRef}
    (hrun : k.isRunning = true) (hstate : k.state t ≠ .terminated)
    (hpin : (k.tcbs t).pinnedCore = c) (hidle : (k.schedulers c).idleThread ≠ some t)
    (hprio : k.priority t < cfg.maxPriorities) (hlink : k.ready.isEnqueued t = false) :
    k.setThreadReady cfg c t =
      .ok (if k.preempts c t then .reschedule else .none, k.makeReady c t) := by
  have hsched := Scheduler.setThreadReady_eq hpin hidle hprio hlink
  have hs : (k.state t != .terminated) = true := by simpa using hstate
  simp only [Kernel.setThreadReady, hs, cortosAssert_bind_true, hrun, Bool.not_true,
    Bool.false_eq_true, if_false, hpin, if_true, hsched, ok_bind]
  have := k.preempts_makeReady c c t
  rw [Kernel.preempts] at this
  rw [← this]
  by_cases hlt : (k.makeReady c t).priority t <
      Scheduler.currentThreadPriority (k.makeReady c t) c
  · simp [hlt, pure, Except.pure]
  · simp [hlt, pure, Except.pure]

/-- `Kernel::set_thread_ready` on a thread of another core. -/
theorem Kernel.setThreadReady_remote {cfg : Config} {k : Kernel} {c : Nat} {t : ThreadRef}
    (hrun : k.isRunning = true) (hstate : k.state t ≠ .terminated)
    (hpin : (k.tcbs t).pinnedCore ≠ c) :
    k.setThreadReady cfg c t =
      if (k.schedulers (k.tcbs t).pinnedCore).inbox.length < inboxCap then
        .ok (.none, k.post (k.tcbs t).pinnedCore t)
      else .error .setReadyNotPosted := by
  have hs : (k.state t != .terminated) = true := by simpa using hstate
  simp only [Kernel.setThreadReady, hs, cortosAssert_bind_true, hrun, Bool.not_true,
    Bool.false_eq_true, if_false, hpin.symm, Scheduler.postToInbox]
  split
  · rfl
  · rfl

/-- `Kernel::set_thread_ready` before the cores run. -/
theorem Kernel.setThreadReady_boot {cfg : Config} {k : Kernel} {c d : Nat} {t : ThreadRef}
    (hrun : k.isRunning = false) (hstate : k.state t ≠ .terminated)
    (hpin : (k.tcbs t).pinnedCore = d) (hidle : (k.schedulers d).idleThread ≠ some t)
    (hprio : k.priority t < cfg.maxPriorities) (hlink : k.ready.isEnqueued t = false) :
    k.setThreadReady cfg c t = .ok (.none, k.makeReady d t) := by
  have hsched := Scheduler.setThreadReady_eq hpin hidle hprio hlink
  have hs : (k.state t != .terminated) = true := by simpa using hstate
  simp [Kernel.setThreadReady, hs, hrun, hpin, hsched, pure, Except.pure]

end Cortos
