import Cortos.Lib.Transition
import Cortos.Kernel.Scheduling
import Cortos.Kernel.Waitable

/-!
# The running system

Cores, fibers and the interleaving of their steps. Each core runs the
scheduler fiber of the port (`CpuCore::start_scheduler`: start the first thread,
then pump `reschedule` until only the idle threads are left) or, while
`core c = thread`, the fiber of its current thread. `fiber t` is where thread
`t` is in its code: in the application (`user`) or inside a kernel call, which
is cut into the steps at which other cores can interfere:

- a critical section under wait locks is one step (`pick`, `teardown`, and
  predicate check plus `prepare_block`); since it takes and releases its
  spinlocks within the step, `preempt_disable_depth` is the same before and
  after it;
- `wake_thread` reads the node, wins the group and readies the thread in
  separate steps; it goes on with what it has read at its assertions, where the
  source reads the group and the index from the node again;
- `reschedule` checks its assertions, drains request by request, and switches.

Scheduling is cooperative: `cortos_port_pend_reschedule` resumes the scheduler
fiber, so a thread leaves its core only at a call of it or when its launcher
returns. What the application does next, the value of its predicates and
whether a `pop` finds the next slot already published are chosen by the label.
The inbox is a bounded queue here; its slots, the poke flag and
the pending bit are the subject of `Cortos.Inbox`.

`waits`, `unregisters` and `exits` count, for each thread, the wait operations
it has begun and its calls of `unregister_thread` and `cortos_port_thread_exit`.
No step reads them except to tag the node a signaller has picked.
-/

namespace Cortos

open Lib

/-! ## Program points -/

/-- The predicate of a `wait_until`: one of the application's, or that of
`Thread::join`. -/
inductive Predicate where
  | application
  | hasTerminated (t : ThreadRef)
  deriving DecidableEq, Repr

/-- A call of `signal_one` or `signal_all` in progress. -/
structure SignalCall where
  waitable : WaitableRef
  acquired : Bool
  /-- `signal_all`. -/
  all : Bool
  /-- The local `reschedule` of `signal_all`. -/
  reschedule : Bool
  /-- Called from `ThreadTermination::terminate`. -/
  exiting : Bool
  deriving DecidableEq, Repr

/-- Where a thread is in its code. -/
inductive ThreadPc where
  /-- In the application, outside any kernel call. -/
  | user
  /-- The idle thread, in `cortos_port_idle`. -/
  | idle
  /-- `register_thread`, before it makes `t` ready. -/
  | register (t : ThreadRef)
  /-- `signal_one` or `signal_all`, before `pick_best`. -/
  | pick (s : SignalCall)
  /-- About to call `wake_thread` on node `n`, which was picked in wait operation
  `wait` of its owner. -/
  | wake (s : SignalCall) (n : NodeRef) (wait : Nat)
  /-- `wake_thread`, before `try_win`, with what it has read from the node. -/
  | tryWin (s : SignalCall) (n : NodeRef) (wait : Nat) (tcb group : ThreadRef) (index : Nat)
  /-- `wake_thread`, before `teardown_wait_group`. -/
  | teardown (s : SignalCall) (tcb group : ThreadRef)
  /-- `wake_thread`, before `set_thread_ready`. -/
  | setReady (s : SignalCall) (tcb : ThreadRef)
  /-- The loop of `wait_until`, before it takes the group lock. -/
  | evaluate (ws : List WaitableRef) (p : Predicate)
  /-- Blocked on `ws`, before `commence_block`; `p` is the predicate of
  `wait_until`, `none` for `wait_for_any`. -/
  | commence (ws : List WaitableRef) (p : Option Predicate)
  /-- In `commence_block`, after `cortos_port_pend_reschedule`. -/
  | waitReturn (ws : List WaitableRef) (p : Option Predicate)
  /-- Spinning on a lock of the application. -/
  | spin (lock : Nat)
  /-- `thread_launcher` after `entry()`, marked Terminated. -/
  | terminate
  /-- `thread_launcher` before `unregister_thread`. -/
  | unregister
  /-- `thread_launcher` before `cortos_port_thread_exit`. -/
  | threadExit
  /-- The launcher has returned. -/
  | finished
  deriving DecidableEq, Repr

/-- Where a core is in its scheduler fiber. -/
inductive CorePc where
  /-- Before `Scheduler::start`. -/
  | boot
  /-- In the fiber of its current thread. -/
  | thread
  /-- At the test of the pump loop. -/
  | pump
  /-- At the head of `reschedule`. -/
  | reschedule
  /-- In `drain_inbox`, before the next `pop`. -/
  | drain
  /-- At the switch over the state of the outgoing thread. -/
  | switch
  /-- The pump loop has ended. -/
  | halted
  deriving DecidableEq, Repr

/-- `Waitable::Result`. -/
structure Result where
  index : Int := -1
  acquired : Bool := false
  deriving DecidableEq, Repr

/-- A state of the system. -/
structure Machine where
  kernel : Kernel
  core : Nat → CorePc
  fiber : ThreadRef → ThreadPc
  /-- What the last wait of each thread returned. -/
  result : ThreadRef → Result
  waits : ThreadRef → Nat
  unregisters : ThreadRef → Nat
  exits : ThreadRef → Nat

/-! ## Labels and faults -/

/-- What the running thread of a core does next. -/
inductive Act where
  | yield
  | construct (priority : UInt8) (affinity : BitVec 32)
  | signalOne (object : Nat) (acquired : Bool)
  | signalAll (object : Nat) (acquired : Bool)
  | waitForAny (objects : List Nat)
  /-- `wait_until`; `holds` is the predicate's value at the unlocked check. -/
  | waitUntil (objects : List Nat) (holds : Bool)
  | join (thread : Nat)
  | lock (l : Nat)
  | tryLock (l : Nat)
  | unlock (l : Nat)
  /-- `entry()` returns. -/
  | ret
  /-- The next step inside the kernel or the port. `b` is the value of an
  application predicate at `evaluate`, and at `drain` that `pop` fails because
  the oldest slot is claimed but not published yet. -/
  | next (b : Bool)
  deriving DecidableEq, Repr

/-- One step of the system. -/
inductive Label where
  /-- `main` constructs a `Thread` before `kernel::start`. -/
  | construct (priority : UInt8) (affinity : BitVec 32)
  /-- `kernel::start`. -/
  | start
  /-- Core `c` takes a step. -/
  | core (c : Nat) (a : Act)
  deriving DecidableEq, Repr

/-- Why a step does not happen: the label does not fit the state, or an
assertion fails. -/
inductive Fault where
  | disabled
  | panic (p : Panic)
  deriving DecidableEq, Repr

/-- A kernel function as a step. -/
def check {α : Type} : Except Panic α → Except Fault α
  | .ok a => .ok a
  | .error p => .error (.panic p)

theorem check_ok {α : Type} {x : Except Panic α} {a : α} : check x = .ok a ↔ x = .ok a := by
  cases x <;> simp [check]

theorem check_panic {α : Type} {x : Except Panic α} {p : Panic} :
    check x = .error (.panic p) ↔ x = .error p := by
  cases x <;> simp [check]

/-- Where a signal returns to. -/
def SignalCall.ret (s : SignalCall) : ThreadPc :=
  if s.exiting then .unregister else .user

namespace Machine

/-! ## Steps of a thread -/

/-- Move the fiber of `t` and install kernel state `k`. -/
def goto (m : Machine) (k : Kernel) (t : ThreadRef) (pc : ThreadPc) : Machine :=
  { m with kernel := k, fiber := Function.update m.fiber t pc }

/-- `cortos_port_pend_reschedule` on core `c`: resume the scheduler fiber; when
`t` is resumed it continues at `pc`. -/
def pend (m : Machine) (k : Kernel) (c : Nat) (t : ThreadRef) (pc : ThreadPc) : Machine :=
  { m with
    kernel := k
    fiber := Function.update m.fiber t pc
    core := Function.update m.core c .pump }

/-- A signal returns to its caller, after a reschedule if it asked for one. -/
def signalReturn (m : Machine) (k : Kernel) (c : Nat) (t : ThreadRef) (s : SignalCall) : Machine :=
  if s.reschedule then m.pend k c t s.ret else m.goto k t s.ret

/-- After a wake, `signal_all` goes on with its loop and `signal_one` returns. -/
def signalNext (m : Machine) (k : Kernel) (c : Nat) (t : ThreadRef) (s : SignalCall) : Machine :=
  if s.all then m.goto k t (.pick s) else m.signalReturn k c t s

/-- The value of a predicate. -/
def holds (m : Machine) (b : Bool) : Predicate → Bool
  | .application => b
  | .hasTerminated t => (m.kernel.tcbs t).terminated

/-- `prepare_block_current_thread`, as a step of thread `t`. -/
def block (cfg : Config) (m : Machine) (t : ThreadRef) (ws : List WaitableRef)
    (p : Option Predicate) : Except Panic Machine := do
  let k ← m.kernel.prepareBlock cfg t ws
  return { m.goto k t (.commence ws p) with
    waits := Function.update m.waits t (m.waits t + 1) }

/-- `kernel::wait_for_any` up to `notify_block`. -/
def waitForAny (cfg : Config) (m : Machine) (t : ThreadRef) (ws : List WaitableRef) :
    Except Panic Machine := do
  cortosAssert (decide (0 < ws.length)) .waitNoWaitables
  cortosAssert (decide (ws.length ≤ cfg.maxWaitNodes)) .waitTooManyWaitables
  let _ ← groupLock cfg ws
  m.block cfg t ws none

/-- `kernel::wait_until` up to its loop; `b` is the predicate's value at the
unlocked check. -/
def waitUntil (cfg : Config) (m : Machine) (t : ThreadRef) (ws : List WaitableRef)
    (p : Predicate) (b : Bool) : Except Panic Machine := do
  cortosAssert (decide (0 < ws.length)) .waitNoWaitables
  cortosAssert (decide (ws.length ≤ cfg.maxWaitNodes)) .waitTooManyWaitables
  let m' := { m with result := Function.update m.result t {} }
  if m.holds b p then return m' else return m'.goto m.kernel t (.evaluate ws p)

/-- The loop body of `wait_until` under the group lock. -/
def evaluate (cfg : Config) (m : Machine) (t : ThreadRef) (ws : List WaitableRef)
    (p : Predicate) (b : Bool) : Except Panic Machine := do
  let _ ← groupLock cfg ws
  if m.holds b p then return m.goto m.kernel t .user else m.block cfg t ws (some p)

/-- The end of `commence_block`: the result is read from the group, and
`wait_until` goes around its loop. -/
def waitReturn (m : Machine) (t : ThreadRef) (ws : List WaitableRef) (p : Option Predicate) :
    Machine :=
  let group := (m.kernel.tcbs t).waitGroup
  let m' := { m with
    result := Function.update m.result t
      { index := group.winnerIndex, acquired := group.acquired } }
  match p with
  | none => m'.goto m.kernel t .user
  | some p => m'.goto m.kernel t (.evaluate ws p)

/-- `register_thread` from `set_thread_ready` on. -/
def register (cfg : Config) (m : Machine) (c : Nat) (t new : ThreadRef) :
    Except Panic Machine := do
  let (action, k) ← m.kernel.setThreadReady cfg c new
  match action with
  | .reschedule => return m.pend k c t .user
  | .none => return m.goto k t .user

/-- The critical section of a signal. -/
def pick (cfg : Config) (m : Machine) (c : Nat) (t : ThreadRef) (s : SignalCall) :
    Except Panic Machine := do
  match ← m.kernel.pickBest cfg s.waitable with
  | none => return m.signalReturn m.kernel c t s
  | some n => return m.goto m.kernel t (.wake s n (m.waits n.owner))

/-- `wake_thread` up to `try_win`: the assertions, and the fields it passes on. They are
read here once; the source reads `group` and `index` again for `try_win`, and `group`
once more after it. That is the same unless the node is freed in between
(`WakesUndisturbed`). -/
def wake (m : Machine) (t : ThreadRef) (s : SignalCall) (n : NodeRef) (wait : Nat) :
    Except Panic Machine :=
  match (m.kernel.node n).tcb, (m.kernel.node n).group with
  | none, _ => .error .wakeNoTcb
  | some _, none => .error .wakeNoGroup
  | some tcb, some group => do
    cortosAssert (m.kernel.node n).waitable.isSome .wakeNoWaitable
    cortosAssert ((m.kernel.node n).index != invalidIndex) .wakeNoIndex
    cortosAssert (m.kernel.state tcb == .blocked) .wakeNotBlocked
    return m.goto m.kernel t (.tryWin s n wait tcb group (m.kernel.node n).index)

/-- `try_win`, and the return of a `wake_thread` that lost. `group` and `index` are those
that `wake` has read. -/
def tryWin (m : Machine) (c : Nat) (t : ThreadRef) (s : SignalCall)
    (tcb group : ThreadRef) (index : Nat) : Machine :=
  if m.kernel.done group then m.signalNext m.kernel c t s
  else m.goto (m.kernel.win group index s.acquired) t (.teardown s tcb group)

/-- `set_thread_ready` at the end of `wake_thread`, and what the signal does
with the answer. -/
def setReady (cfg : Config) (m : Machine) (c : Nat) (t : ThreadRef) (s : SignalCall)
    (tcb : ThreadRef) : Except Panic Machine := do
  let (action, k) ← m.kernel.setThreadReady cfg c tcb
  match action with
  | .reschedule => return m.signalNext k c t { s with reschedule := true }
  | .none => return m.signalNext k c t s

/-- `ThreadTermination::terminate` up to its `signal_all`. -/
def terminate (m : Machine) (t : ThreadRef) : Except Panic Machine := do
  cortosAssert (!(m.kernel.tcbs t).terminated) .terminatedTwice
  return m.goto (m.kernel.modifyTcb t fun b => { b with terminated := true }) t
    (.pick { waitable := .termination t, acquired := false, all := true, reschedule := false,
             exiting := true })

/-- `thread_launcher` after `terminate`: idle threads are not counted. -/
def unregister (m : Machine) (c : Nat) (t : ThreadRef) : Except Panic Machine :=
  if (m.kernel.tcbs t).id = idleThreadId then return m.pend m.kernel c t .finished
  else do
    let k ← m.kernel.unregisterThread
    return { m.goto k t .threadExit with
      unregisters := Function.update m.unregisters t (m.unregisters t + 1) }

/-- The last call of `thread_launcher`; the fiber then returns to the scheduler
fiber. -/
def threadExit (m : Machine) (c : Nat) (t : ThreadRef) : Except Panic Machine := do
  let k ← m.kernel.threadExit
  return { m.pend k c t .finished with
    exits := Function.update m.exits t (m.exits t + 1) }

/-- `Spinlock::lock`, one test of the flag. -/
def spin (m : Machine) (t : ThreadRef) (l : Nat) : Machine :=
  if m.kernel.spinlocks l then m
  else m.goto { m.kernel with spinlocks := Function.update m.kernel.spinlocks l true } t .user

/-- `Spinlock::unlock`. -/
def unlock (m : Machine) (c l : Nat) : Except Panic Machine := do
  let k ← Scheduler.enablePreemption
    { m.kernel with spinlocks := Function.update m.kernel.spinlocks l false } c
  return { m with kernel := k }

/-- A step of the current thread `t` of core `c` inside the kernel. -/
def threadNext (cfg : Config) (m : Machine) (c : Nat) (t : ThreadRef) (b : Bool) :
    Except Fault Machine :=
  match m.fiber t with
  | .user | .finished => .error .disabled
  | .idle => .ok (m.pend m.kernel c t .idle)
  | .register new => check (m.register cfg c t new)
  | .pick s => check (m.pick cfg c t s)
  | .wake s n wait => check (m.wake t s n wait)
  | .tryWin s _ _ tcb group index => .ok (m.tryWin c t s tcb group index)
  | .teardown s tcb group => check do
    let k ← m.kernel.teardownWaitGroup cfg tcb group
    return m.goto k t (.setReady s tcb)
  | .setReady s tcb => check (m.setReady cfg c t s tcb)
  | .evaluate ws p => check (m.evaluate cfg t ws p b)
  | .commence ws p => .ok (m.pend m.kernel c t (.waitReturn ws p))
  | .waitReturn ws p => .ok (m.waitReturn t ws p)
  | .spin l => .ok (m.spin t l)
  | .terminate => check (m.terminate t)
  | .unregister => check (m.unregister c t)
  | .threadExit => check (m.threadExit c t)

/-- A kernel call, or the return from `entry()`, by the current thread `t` of
core `c`. -/
def call (cfg : Config) (m : Machine) (c : Nat) (t : ThreadRef) : Act → Except Fault Machine
  | .next _ => .error .disabled
  | .yield => .ok (m.pend m.kernel c t .user)
  | .construct priority affinity => check do
    let k ← m.kernel.construct cfg priority affinity
    return m.goto k t (.register (.user m.kernel.threads))
  | .signalOne o acquired => .ok (m.goto m.kernel t (.pick
      { waitable := .object o, acquired := acquired, all := false, reschedule := false,
        exiting := false }))
  | .signalAll o acquired => .ok (m.goto m.kernel t (.pick
      { waitable := .object o, acquired := acquired, all := true, reschedule := false,
        exiting := false }))
  | .waitForAny os => check (m.waitForAny cfg t (os.map .object))
  | .waitUntil os b => check (m.waitUntil cfg t (os.map .object) .application b)
  | .join n =>
    -- only a constructed thread has a handle to join
    if n < m.kernel.threads then
      check (m.waitUntil cfg t [.termination (.user n)] (.hasTerminated (.user n)) false)
    else .error .disabled
  | .lock l => .ok (m.goto (Scheduler.disablePreemption m.kernel c) t (.spin l))
  | .tryLock l => .ok { m with
      kernel := { m.kernel with spinlocks := Function.update m.kernel.spinlocks l true } }
  | .unlock l => check (m.unlock c l)
  | .ret => .ok (m.goto (m.kernel.setState t .terminated) t .terminate)

/-! ## Steps of a core -/

/-- Move the scheduler fiber of core `c` and install kernel state `k`. -/
def coreGoto (m : Machine) (k : Kernel) (c : Nat) (pc : CorePc) : Machine :=
  { m with kernel := k, core := Function.update m.core c pc }

/-- `drain_inbox`, one request; `stop` when the oldest slot is not published. -/
def drain (cfg : Config) (m : Machine) (c : Nat) (stop : Bool) : Except Panic Machine := do
  if stop then return m.coreGoto m.kernel c .switch
  else
    match ← Scheduler.drainOne cfg m.kernel c with
    | none => return m.coreGoto m.kernel c .switch
    | some k => return { m with kernel := k }

/-- A step of core `c`. -/
def coreStep (cfg : Config) (m : Machine) (c : Nat) (a : Act) : Except Fault Machine :=
  match m.core c, a with
  | .thread, a =>
    match m.kernel.current c with
    | none => .error .disabled
    | some t =>
      match m.fiber t, a with
      | .user, a => m.call cfg c t a
      | _, .next b => m.threadNext cfg c t b
      | _, _ => .error .disabled
  | .boot, .next _ => check do
    let (_, k) ← Scheduler.start m.kernel c
    return m.coreGoto k c .thread
  | .pump, .next _ =>
    .ok (m.coreGoto m.kernel c
      (if cfg.cores < m.kernel.activeContexts then .reschedule else .halted))
  | .reschedule, .next _ => check do
    Scheduler.rescheduleEntry m.kernel c
    return m.coreGoto m.kernel c .drain
  | .drain, .next b => check (m.drain cfg c b)
  | .switch, .next _ => check do
    let (_, k) ← Scheduler.switchThread cfg m.kernel c
    return m.coreGoto k c .thread
  | _, _ => .error .disabled

/-! ## The system -/

/-- The constructor of `Thread`, called by `main` before the cores run. -/
def constructBeforeStart (cfg : Config) (m : Machine) (priority : UInt8) (affinity : BitVec 32) :
    Except Panic Machine := do
  let k ← m.kernel.construct cfg priority affinity
  let (_, k') ← k.setThreadReady cfg 0 (.user m.kernel.threads)
  return { m with kernel := k' }

/-- One step of the system. -/
def step (cfg : Config) (m : Machine) : Label → Except Fault Machine
  | .construct priority affinity =>
    if m.kernel.isRunning then .error .disabled
    else check (m.constructBeforeStart cfg priority affinity)
  | .start =>
    if m.kernel.isRunning then .error .disabled
    else check do
      let k ← m.kernel.start
      return { m with kernel := k }
  | .core c a =>
    if m.kernel.isRunning ∧ c < cfg.cores then m.coreStep cfg c a else .error .disabled

/-- The system after `kernel::initialise`. -/
def initial (cfg : Config) : Machine where
  kernel := Kernel.initialised cfg
  core _ := .boot
  fiber
    | .idle _ => .idle
    | .user _ => .user
  result _ := {}
  waits _ := 0
  unregisters _ := 0
  exits _ := 0

end Machine

/-- The kernel on the cores of the port, as a transition system. -/
def system (cfg : Config) : Lts Machine Label Fault where
  init m := m = Machine.initial cfg
  step := Machine.step cfg

end Cortos
