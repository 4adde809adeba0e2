import Mathlib.Data.List.Sort
import Cortos.Kernel.WaitNodes

/-!
# Waitables and blocking

The wait queues (`waitable.cpp`), the group lock (`waitable_utilities.hpp`) and
the two operations that link and unlink a thread's nodes
(`threading_subsystem.cpp:12–87`): `prepare_block` allocates and appends one
node per waitable, `teardown_wait_group` detaches and frees them all.

Each function here runs under the wait locks of the waitables it touches, so it
is one atomic step of the system; `WaitableGroupLock` itself is modelled by the
order in which it takes the locks and by its uniqueness assertion.
-/

namespace Cortos

open Lib

/-! ## `WaitableGroupLock` -/

/-- `WaitableRefVector::sort_by_address`. -/
def sortByAddress (cfg : Config) (ws : List WaitableRef) : List WaitableRef :=
  ws.insertionSort fun v w => cfg.address v ≤ cfg.address w

/-- The uniqueness loop: no element equals the one before it. -/
def adjacentDistinct : List WaitableRef → Bool
  | v :: w :: ws => v != w && adjacentDistinct (w :: ws)
  | _ => true

/-- The constructor of `WaitableGroupLock`: the waitables in the order in which
their locks are taken. -/
def groupLock (cfg : Config) (ws : List WaitableRef) : Except Panic (List WaitableRef) := do
  cortosAssert (decide (ws.length ≤ cfg.maxWaitNodes)) .vectorFull
  cortosAssert (adjacentDistinct (sortByAddress cfg ws)) .groupNotUnique
  return sortByAddress cfg ws

namespace Kernel

/-! ## `Waitable` -/

/-- Update one wait node. -/
def modifyNode (k : Kernel) (n : NodeRef) (f : WaitNode → WaitNode) : Kernel :=
  k.modifyTcb n.owner fun b =>
    { b with waitNodes :=
        { b.waitNodes with
          nodes := Function.update b.waitNodes.nodes n.slot (f (b.waitNodes.nodes n.slot)) } }

/-- `Waitable::add`. -/
def addWaiter (k : Kernel) (w : WaitableRef) (n : NodeRef) : Except Panic Kernel := do
  cortosAssert ((k.node n).waitable == some w || (k.node n).waitable == none) .addWaitable
  cortosAssert (!k.waiters.isEnqueued n) .addEnqueued
  let k' := k.modifyNode n fun b => { b with waitable := some w }
  return { k' with waiters := k.waiters.pushBack w n }

/-- `Waitable::remove`. -/
def removeWaiter (k : Kernel) (w : WaitableRef) (n : NodeRef) : Kernel :=
  if (k.node n).waitable = some w then
    let k' := k.modifyNode n fun b => { b with waitable := none }
    { k' with waiters := k.waiters.unlink w n }
  else k

/-- The loop of `Waitable::pick_best` from node `iter` on. -/
def pickBestFrom (k : Kernel) (w : WaitableRef) :
    Nat → Option NodeRef → Option NodeRef → Nat → Except Panic (Option NodeRef)
  | _, none, best, _ => .ok best
  | 0, some _, _, _ => .error .waitersCyclic
  | fuel + 1, some iter, best, bestPriority => do
    cortosAssert (k.node iter).active .pickInactive
    match (k.node iter).tcb with
    | none => .error .pickNoTcb
    | some tcb =>
      cortosAssert ((k.node iter).waitable == some w) .pickWaitable
      -- nodes of groups that are already won are skipped
      if (match (k.node iter).group with | some g => k.done g | none => false) then
        k.pickBestFrom w fuel (k.waiters.next iter) best bestPriority
      else if best.isNone || decide (k.priority tcb < bestPriority) then
        k.pickBestFrom w fuel (k.waiters.next iter) (some iter) (k.priority tcb)
      else k.pickBestFrom w fuel (k.waiters.next iter) best bestPriority

/-- `Waitable::pick_best`. The traversal is cut off after as many nodes as the
constructed threads have in all. -/
def pickBest (cfg : Config) (k : Kernel) (w : WaitableRef) : Except Panic (Option NodeRef) :=
  k.pickBestFrom w (k.threads * cfg.maxWaitNodes) (k.waiters.head w) none 255

/-! ## `ThreadControlBlock::prepare_block` -/

/-- `wait_nodes.alloc(wait_group, *waitable, i)` of thread `t`. -/
def allocNode (k : Kernel) (t : ThreadRef) (w : WaitableRef) (i : Nat) :
    Except Panic (Option (NodeRef × Kernel)) := do
  match ← (k.tcbs t).waitNodes.alloc t w i with
  | none => return none
  | some (slot, pool) =>
    let k' := k.modifyTcb t fun b => { b with waitNodes := pool }
    return some (⟨t, slot⟩, { k' with waiters := k.waiters.clear ⟨t, slot⟩ })

/-- The loop of `prepare_block`, from waitable number `i` on. -/
def enqueueNodes (t : ThreadRef) : Kernel → Nat → List WaitableRef → Except Panic Kernel
  | k, _, [] => .ok k
  | k, i, w :: ws => do
    match ← k.allocNode t w i with
    | none => .error .prepareNoNode
    | some (n, k') =>
      let k'' ← k'.addWaiter w n
      enqueueNodes t k'' (i + 1) ws

/-- `WaitGroup::begin`. -/
def beginGroup (n : Nat) : WaitGroup :=
  { done := false, winnerIndex := -1, acquired := false, expectedCount := n }

/-- `ThreadControlBlock::prepare_block`. -/
def prepareBlock (cfg : Config) (k : Kernel) (t : ThreadRef) (ws : List WaitableRef) :
    Except Panic Kernel := do
  cortosAssert (k.state t == .running) .prepareNotRunning
  cortosAssert (decide (0 < ws.length)) .waitNoWaitables
  cortosAssert (decide (ws.length ≤ cfg.maxWaitNodes)) .waitTooManyWaitables
  let k' := k.modifyTcb t fun b => { b with waitGroup := beginGroup ws.length }
  let k'' ← enqueueNodes t k' 0 ws
  return k''.setState t .blocked

/-- `WaitGroup::try_win` on the group of `g`, where it succeeds. -/
def win (k : Kernel) (g : ThreadRef) (index : Nat) (acquired : Bool) : Kernel :=
  k.modifyTcb g fun b =>
    { b with
      waitGroup := { b.waitGroup with done := true, winnerIndex := index, acquired := acquired } }

/-! ## `ThreadControlBlock::teardown_wait_group` -/

/-- First pass on slot `i`: `waitables.push(node.waitable)` if the node is
active and in the group. -/
def collectWaitable (cfg : Config) (k : Kernel) (t group : ThreadRef)
    (waitables : List WaitableRef) (i : Nat) : Except Panic (List WaitableRef) :=
  let node := (k.tcbs t).waitNodes.nodes i
  if node.active && node.group == some group then
    match node.waitable with
    | some w => do
      cortosAssert (decide (waitables.length < cfg.maxWaitNodes)) .vectorFull
      return waitables ++ [w]
    | none => .ok waitables
  else .ok waitables

/-- Second pass on slot `i`: unlink the node and free it. -/
def releaseNode (cfg : Config) (t group : ThreadRef) (k : Kernel) (i : Nat) :
    Except Panic Kernel :=
  let node := (k.tcbs t).waitNodes.nodes i
  if node.active && node.group == some group then
    let k' := match node.waitable with
      | some w => k.removeWaiter w ⟨t, i⟩
      | none => k
    do
      let pool ← (k'.tcbs t).waitNodes.free cfg.maxWaitNodes i
      let k'' := k'.modifyTcb t fun b => { b with waitNodes := pool }
      return { k'' with waiters := k'.waiters.clear ⟨t, i⟩ }
  else .ok k

/-- `ThreadControlBlock::teardown_wait_group`. -/
def teardownWaitGroup (cfg : Config) (k : Kernel) (t group : ThreadRef) :
    Except Panic Kernel := do
  let waitables ← (List.range cfg.maxWaitNodes).foldlM (k.collectWaitable cfg t group) []
  let _ ← groupLock cfg waitables
  (List.range cfg.maxWaitNodes).foldlM (releaseNode cfg t group) k

end Kernel

end Cortos
