import Mathlib.Logic.Function.Basic
import Cortos.Lib.IntrusiveList
import Cortos.Lib.BitScan

/-!
# Kernel data model

The objects of the kernel (`threading_subsystem.hpp`, `wait_subsystem.hpp`,
`waitable.hpp`, `scheduler.hpp`, the `Kernel` class of `kernel.cpp`) and the
references between them.

- `ThreadRef`, `WaitableRef`, `NodeRef` are the pointers `ThreadControlBlock*`,
  `Waitable*` and `WaitNode*`; a nullable pointer is an `Option`. A `WaitGroup*`
  always points into a thread, so it is that thread's `ThreadRef`.
- The intrusive links of all TCBs with the heads and tails of all ready queues
  form one `Links` record, indexed by (core, priority); those of all wait nodes
  with the heads and tails of all waitables form another.
- `Config` collects `config.hpp` with what its static assertions guarantee.
- `Panic` names the kernel's assertions: a failed `CORTOS_ASSERT` ends the run.

The 32-bit atomic counters are naturals reduced modulo `2^32`. The waitables'
hooks are the default no-ops, so the snapshots made for them (`create_waiter`)
are not modelled; neither are the stacks.
-/

namespace Cortos

open Lib

/-! ## References and configuration -/

/-- A thread control block: the idle thread of a core, or the `n`-th `Thread`
constructed. -/
inductive ThreadRef where
  | idle (core : Nat)
  | user (n : Nat)
  deriving DecidableEq, Repr

/-- The idle thread of some core. -/
def ThreadRef.isIdle : ThreadRef → Bool
  | .idle _ => true
  | .user _ => false

/-- A waitable: an object of the application, or the `ThreadTermination` inside
a thread control block. -/
inductive WaitableRef where
  | object (n : Nat)
  | termination (t : ThreadRef)
  deriving DecidableEq, Repr

/-- A wait node: slot `slot` of the pool of `owner`. -/
structure NodeRef where
  owner : ThreadRef
  slot : Nat
  deriving DecidableEq, Repr

/-- `config.hpp`, with the bounds its users check statically, and the addresses
at which the waitables happen to live (`WaitableGroupLock` locks in address
order). -/
structure Config where
  cores : Nat
  maxWaitNodes : Nat
  maxPriorities : Nat
  address : WaitableRef → Nat
  cores_pos : 0 < cores
  waitNodes_pos : 0 < maxWaitNodes
  waitNodes_le : maxWaitNodes ≤ 32
  priorities_pos : 0 < maxPriorities
  priorities_le : maxPriorities ≤ 32
  address_inj : Function.Injective address

/-- One arbitrary placement of the waitables in memory. -/
def placement : WaitableRef → Nat
  | .object n => 3 * n
  | .termination (.idle c) => 3 * c + 1
  | .termination (.user n) => 3 * n + 2

theorem placement_injective : Function.Injective placement := by
  intro v w h
  rcases v with n | c | n <;> rcases w with m | d | m <;>
    simp only [placement, WaitableRef.object.injEq, WaitableRef.termination.injEq,
      ThreadRef.idle.injEq, ThreadRef.user.injEq, reduceCtorEq] at h ⊢ <;> omega

/-- The repository's configuration, for a given number of cores. -/
def defaultConfig (cores : Nat) (h : 0 < cores) : Config where
  cores := cores
  maxWaitNodes := 8
  maxPriorities := 31
  address := placement
  cores_pos := h
  waitNodes_pos := by decide
  waitNodes_le := by decide
  priorities_pos := by decide
  priorities_le := by decide
  address_inj := placement_injective

/-! ## Assertions -/

/-- The kernel's assertions, by the function that makes them.
`reschedUnreachable` is the `__builtin_unreachable()` of `reschedule`, and
`waitersCyclic` is the non-termination of a traversal of a cyclic list. -/
inductive Panic where
  | startNoThreads
  | affinityAllowsNoCore
  | setReadyTerminated
  | setReadyNotPosted
  | setReadyPinnedCore
  | enqueuePriority
  | enqueueNotReady
  | pushBackEnqueued
  | pushBackNotReady
  | removeNoPrev
  | removeNoNext
  | removeEnds
  | startNoIdleThread
  | startFirstNotReady
  | reschedNoCurrent
  | reschedCurrentEnqueued
  | reschedCurrentReady
  | reschedUnreachable
  | waitNoWaitables
  | waitTooManyWaitables
  | vectorFull
  | groupNotUnique
  | prepareNotRunning
  | prepareNoNode
  | allocIndex
  | allocActive
  | freeForeignNode
  | freeInactive
  | freeSlot
  | addWaitable
  | addEnqueued
  | pickInactive
  | pickNoTcb
  | pickWaitable
  | waitersCyclic
  | wakeNoTcb
  | wakeNoGroup
  | wakeNoWaitable
  | wakeNoIndex
  | wakeNotBlocked
  | terminatedTwice
  | unregisterNoThreads
  | exitNoContexts
  | preemptNotDisabled
  deriving DecidableEq, Repr

/-- `CORTOS_ASSERT`. -/
def cortosAssert (cond : Bool) (p : Panic) : Except Panic Unit :=
  if cond then .ok () else .error p

theorem cortosAssert_ok {cond : Bool} {p : Panic} {u : Unit} :
    cortosAssert cond p = .ok u ↔ cond = true := by
  cases cond <;> simp [cortosAssert]

@[simp] theorem cortosAssert_bind_true {α : Type} {p : Panic} {f : Unit → Except Panic α} :
    (cortosAssert true p >>= f) = f () := rfl

/-- A sequence succeeds when its first part does and the rest does from there. -/
theorem bind_ok {ε α β : Type} {x : Except ε α} {f : α → Except ε β} {r : β} :
    (x >>= f) = .ok r ↔ ∃ a, x = .ok a ∧ f a = .ok r := by
  cases x with
  | error e => exact ⟨nofun, nofun⟩
  | ok a => exact ⟨fun h => ⟨a, rfl, h⟩, fun ⟨_, h, h'⟩ => by cases h; exact h'⟩

@[simp] theorem ok_bind {ε α β : Type} {a : α} {f : α → Except ε β} :
    ((.ok a : Except ε α) >>= f) = f a := rfl

/-! ## Objects -/

/-- `ThreadControlBlock::State`. -/
inductive ThreadState where
  | ready
  | running
  | blocked
  | terminated
  deriving DecidableEq, Repr

/-- `WaitNode::INVALID_INDEX`. -/
def invalidIndex : Nat := 255

/-- `WaitNode` without its links, which are in `Kernel.waiters`. -/
structure WaitNode where
  slot : Nat
  active : Bool
  tcb : Option ThreadRef
  waitable : Option WaitableRef
  group : Option ThreadRef
  index : Nat
  deriving DecidableEq, Repr

/-- `WaitNodePool`. -/
structure WaitNodePool where
  nodes : Nat → WaitNode
  freeMask : BitVec 32

/-- `WaitGroup`. -/
structure WaitGroup where
  done : Bool := false
  winnerIndex : Int := -1
  acquired : Bool := false
  expectedCount : Nat := 0
  deriving DecidableEq, Repr

/-- `ThreadControlBlock` without its links, which are in `Kernel.ready`.
`terminated` is the flag of its `ThreadTermination`. -/
structure Tcb where
  state : ThreadState := .ready
  id : Nat
  effectivePriority : Nat
  pinnedCore : Nat := 0
  affinity : BitVec 32
  waitGroup : WaitGroup := {}
  waitNodes : WaitNodePool
  terminated : Bool := false

/-- `Scheduler` of one core. The heads and tails of its ready matrix are in
`Kernel.ready`. Its inbox is the sequence of `SetThreadReady` requests posted
and not yet drained. -/
structure Scheduler where
  currentThread : Option ThreadRef := none
  idleThread : Option ThreadRef := none
  bitmap : BitVec 32 := 0#32
  pinnedThreadCounter : Nat := 0
  preemptDisableDepth : Nat := 0
  inbox : List ThreadRef := []

/-- The kernel with the port's context counter and the application's spinlocks. -/
structure Kernel where
  tcbs : ThreadRef → Tcb
  ready : Links (Nat × Nat) ThreadRef
  waiters : Links WaitableRef NodeRef
  schedulers : Nat → Scheduler
  /-- How many `Thread`s have been constructed. -/
  threads : Nat
  isRunning : Bool
  activeThreads : Nat
  threadIdGenerator : Nat
  activeContexts : Nat
  /-- The flags of the application's `Spinlock` objects. -/
  spinlocks : Nat → Bool

/-- `ReadyAction`. -/
inductive ReadyAction where
  | none
  | reschedule
  deriving DecidableEq, Repr

/-- The value of a 32-bit counter. -/
def u32 (n : Nat) : Nat := n % 2 ^ 32

namespace Kernel

variable (k : Kernel)

/-- The state of a thread. -/
def state (t : ThreadRef) : ThreadState := (k.tcbs t).state

/-- The effective priority of a thread: smaller is more urgent. -/
def priority (t : ThreadRef) : Nat := (k.tcbs t).effectivePriority

/-- The wait node a reference points to. -/
def node (n : NodeRef) : WaitNode := (k.tcbs n.owner).waitNodes.nodes n.slot

/-- `group->done` of a thread's wait group. -/
def done (t : ThreadRef) : Bool := (k.tcbs t).waitGroup.done

/-- The thread current on a core. -/
def current (c : Nat) : Option ThreadRef := (k.schedulers c).currentThread

/-- Update one thread control block. -/
def modifyTcb (t : ThreadRef) (f : Tcb → Tcb) : Kernel :=
  { k with tcbs := Function.update k.tcbs t (f (k.tcbs t)) }

/-- Update one scheduler. -/
def modifySched (c : Nat) (f : Scheduler → Scheduler) : Kernel :=
  { k with schedulers := Function.update k.schedulers c (f (k.schedulers c)) }

/-- `tcb.state = st`. -/
def setState (t : ThreadRef) (st : ThreadState) : Kernel :=
  k.modifyTcb t fun b => { b with state := st }

end Kernel

end Cortos
