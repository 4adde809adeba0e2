import Cortos.Kernel.Basic

/-!
# The per-thread pool of wait nodes (`wait_subsystem.hpp`)

`WaitNodePool` hands out its nodes lowest slot first and takes them back in any
order; `free_mask` has a bit for each node that is not handed out.

The kernel uses a pool in one pattern only: a blocking thread allocates one node
for each of its waitables from a full pool, and the signal that wakes it frees
them all. `poolFor N t ws` is the pool in closed form while `t` waits on `ws`
(with `ws = []` the full pool), and `poolFreed N t ws j` the pool while the
nodes are being freed, when the first `j` slots have been visited. The lemmas
say that each `alloc` and each `free` moves between these forms.
-/

namespace Cortos

open Lib

/-! ## Operations -/

/-- `WaitNode::reset`, links apart. -/
def WaitNode.reset (n : WaitNode) : WaitNode :=
  { n with active := false, waitable := none, group := none, index := invalidIndex }

namespace WaitNodePool

/-- `ALL_NODES_FREE`. -/
def allNodesFree (N : Nat) : BitVec 32 :=
  if N = 32 then BitVec.allOnes 32 else (1#32 <<< N) - 1#32

/-- The constructor: every node knows its slot and its thread, and is free. -/
def create (N : Nat) (tcb : ThreadRef) : WaitNodePool where
  nodes i :=
    { slot := i, active := false, tcb := some tcb, waitable := none, group := none,
      index := invalidIndex }
  freeMask := allNodesFree N

/-- `alloc`: take the lowest free node and initialise it; `none` when the pool
is exhausted. -/
def alloc (p : WaitNodePool) (group : ThreadRef) (waitable : WaitableRef) (index : Nat) :
    Except Panic (Option (Nat × WaitNodePool)) := do
  cortosAssert (index != invalidIndex) .allocIndex
  if p.freeMask = 0#32 then return none
  let bit := countrZero p.freeMask
  cortosAssert (!(p.nodes bit).active) .allocActive
  let node := { (p.nodes bit).reset with
    active := true, group := some group, waitable := some waitable, index := index }
  return some (bit,
    { nodes := Function.update p.nodes bit node, freeMask := clearBit p.freeMask bit })

/-- `free` of the node in slot `i`. -/
def free (N : Nat) (p : WaitNodePool) (i : Nat) : Except Panic WaitNodePool := do
  cortosAssert (decide (i < N)) .freeForeignNode
  cortosAssert (p.nodes i).active .freeInactive
  cortosAssert ((p.nodes i).slot == i) .freeSlot
  return { nodes := Function.update p.nodes i (p.nodes i).reset
           freeMask := setBit p.freeMask i }

/-! ## The free mask -/

theorem getLsbD_allNodesFree {N : Nat} (hN : N ≤ 32) (i : Nat) :
    (allNodesFree N).getLsbD i = decide (i < N) := by
  unfold allNodesFree
  by_cases h : N = 32
  · subst h
    rw [if_pos rfl, BitVec.getLsbD_allOnes]
  · have hpow : 2 ^ N < 2 ^ 32 := Nat.pow_lt_pow_right (by decide) (by omega)
    have hnat : ((1#32 <<< N) - 1#32).toNat = 2 ^ N - 1 := by
      have hpos := Nat.two_pow_pos N
      have hone : (1#32 <<< N).toNat = 2 ^ N := by
        rw [BitVec.toNat_shiftLeft, Nat.shiftLeft_eq, BitVec.toNat_one (by decide), Nat.one_mul,
          Nat.mod_eq_of_lt hpow]
      rw [BitVec.toNat_sub, hone]
      simp only [BitVec.toNat_ofNat]
      omega
    rw [if_neg h, BitVec.getLsbD, hnat, Nat.testBit_two_pow_sub_one]

/-- Bits `k, …, N - 1`: the free mask when the first `k` nodes are taken. -/
def freeFrom (N k : Nat) : BitVec 32 := (List.range k).foldl clearBit (allNodesFree N)

theorem freeFrom_zero (N : Nat) : freeFrom N 0 = allNodesFree N := rfl

theorem freeFrom_succ (N k : Nat) : freeFrom N (k + 1) = clearBit (freeFrom N k) k := by
  simp [freeFrom, List.range_succ]

theorem getLsbD_freeFrom {N : Nat} (hN : N ≤ 32) (k i : Nat) :
    (freeFrom N k).getLsbD i = (decide (k ≤ i) && decide (i < N)) := by
  induction k with
  | zero => simp [freeFrom_zero, getLsbD_allNodesFree hN]
  | succ k ih =>
    rw [freeFrom_succ, getLsbD_clearBit, ih]
    rcases Nat.lt_trichotomy i k with h | h | h
    · simp [Nat.not_le_of_lt h, Nat.not_le_of_lt (Nat.lt_succ_of_lt h)]
    · subst h
      rw [decide_eq_false (Nat.not_succ_le_self i)]
      simp
    · simp [Nat.le_of_lt h, Nat.succ_le_of_lt h, Nat.ne_of_gt h]

/-- The lowest free node is the first not taken. -/
theorem countrZero_freeFrom {N k : Nat} (hN : N ≤ 32) (hk : k < N) :
    countrZero (freeFrom N k) = k := by
  refine countrZero_eq (by simp [getLsbD_freeFrom hN, hk]) fun i hi => ?_
  simp [getLsbD_freeFrom hN, Nat.not_le_of_lt hi]

theorem freeFrom_ne_zero {N k : Nat} (hN : N ≤ 32) (hk : k < N) : freeFrom N k ≠ 0#32 := by
  intro h
  have := (eq_zero_iff_getLsbD _).mp h k
  simp [getLsbD_freeFrom hN, hk] at this

/-- Freeing the first `k` nodes again gives the full mask. -/
theorem setBits_freeFrom {N k : Nat} (hN : N ≤ 32) (hk : k ≤ N) :
    (List.range k).foldl setBit (freeFrom N k) = allNodesFree N := by
  have hset : ∀ j i, ((List.range j).foldl setBit (freeFrom N k)).getLsbD i =
      ((decide (k ≤ i) && decide (i < N)) || (decide (i < 32) && decide (i < j))) := by
    intro j i
    induction j with
    | zero => simp [getLsbD_freeFrom hN]
    | succ j ih =>
      rw [List.range_succ, List.foldl_append]
      simp only [List.foldl_cons, List.foldl_nil]
      rw [getLsbD_setBit, ih]
      grind
  refine BitVec.eq_of_getLsbD_eq fun i hi => ?_
  rw [hset, getLsbD_allNodesFree hN]
  grind

/-! ## The pool of a waiting thread -/

/-- The node for slot `i` while `t` waits on `ws`. -/
def nodeFor (t : ThreadRef) (ws : List WaitableRef) (i : Nat) : WaitNode where
  slot := i
  active := decide (i < ws.length)
  tcb := some t
  waitable := ws[i]?
  group := if i < ws.length then some t else none
  index := if i < ws.length then i else invalidIndex

/-- The pool of `t` while it waits on `ws`: slot `i` holds the node for the
`i`-th waitable. -/
def poolFor (N : Nat) (t : ThreadRef) (ws : List WaitableRef) : WaitNodePool where
  nodes := nodeFor t ws
  freeMask := freeFrom N ws.length

/-- The pool of `t` while its nodes for `ws` are being freed, when the slots
below `j` are done. -/
def poolFreed (N : Nat) (t : ThreadRef) (ws : List WaitableRef) (j : Nat) : WaitNodePool where
  nodes i := if i < j then nodeFor t [] i else nodeFor t ws i
  freeMask := (List.range (min j ws.length)).foldl setBit (freeFrom N ws.length)

theorem create_eq (N : Nat) (t : ThreadRef) : create N t = poolFor N t [] := by
  simp [create, poolFor, freeFrom_zero]
  funext i
  simp [nodeFor]

theorem poolFreed_zero (N : Nat) (t : ThreadRef) (ws : List WaitableRef) :
    poolFreed N t ws 0 = poolFor N t ws := by
  simp [poolFreed, poolFor]

/-- Once every slot has been visited the pool is full again. -/
theorem poolFreed_all {N : Nat} (hN : N ≤ 32) (t : ThreadRef) {ws : List WaitableRef}
    (hws : ws.length ≤ N) : poolFreed N t ws N = poolFor N t [] := by
  simp only [poolFreed, poolFor, WaitNodePool.mk.injEq, List.length_nil, freeFrom_zero,
    Nat.min_eq_right hws, setBits_freeFrom hN hws, and_true]
  funext i
  by_cases hi : i < N
  · simp [hi]
  · have hlen : ¬ i < ws.length := by omega
    simp [hi, nodeFor, hlen]

/-- `alloc` for the next waitable of a blocking thread: it cannot fail while a
slot is left. -/
theorem alloc_poolFor {N : Nat} (hN : N ≤ 32) (t : ThreadRef) {ws : List WaitableRef}
    (w : WaitableRef) (hws : ws.length < N) :
    (poolFor N t ws).alloc t w ws.length = .ok (some (ws.length, poolFor N t (ws ++ [w]))) := by
  have hidx : (ws.length != invalidIndex) = true := by
    simp only [invalidIndex, bne_iff_ne, ne_eq]
    omega
  have hact : (nodeFor t ws ws.length).active = false := by simp [nodeFor]
  simp only [alloc, poolFor, hidx, cortosAssert_bind_true, freeFrom_ne_zero hN hws, if_false,
    countrZero_freeFrom hN hws, hact, Bool.not_false, List.length_append, List.length_cons,
    List.length_nil, Nat.zero_add, freeFrom_succ]
  congr 4
  funext i
  rcases Nat.lt_trichotomy i ws.length with h | h | h
  · simp [Nat.ne_of_lt h, nodeFor, h, Nat.lt_succ_of_lt h]
  · subst h
    simp [nodeFor, WaitNode.reset]
  · have h₁ : ¬ i < ws.length := by omega
    have h₂ : ¬ i < ws.length + 1 := by omega
    simp [Nat.ne_of_gt h, nodeFor, h₁, h₂]

/-- `free` of the next taken slot. -/
theorem free_poolFreed {N : Nat} (t : ThreadRef) {ws : List WaitableRef} {j : Nat}
    (hj : j < ws.length) (hws : ws.length ≤ N) :
    (poolFreed N t ws j).free N j = .ok (poolFreed N t ws (j + 1)) := by
  have hN : j < N := by omega
  have hmin : min j ws.length = j := by omega
  have hmin' : min (j + 1) ws.length = j + 1 := by omega
  simp only [free, poolFreed, hN, decide_true, cortosAssert_bind_true, Nat.lt_irrefl, if_false,
    nodeFor, hj, beq_self_eq_true, hmin, hmin', List.range_succ, List.foldl_append,
    List.foldl_cons, List.foldl_nil]
  congr 2
  funext i
  by_cases hi : i = j
  · subst hi
    simp [WaitNode.reset]
  · have : i < j + 1 ↔ i < j := by omega
    simp [hi, this]

/-- A slot that holds no node for `ws` is skipped. -/
theorem poolFreed_skip {N : Nat} (t : ThreadRef) {ws : List WaitableRef} {j : Nat}
    (hj : ws.length ≤ j) : poolFreed N t ws (j + 1) = poolFreed N t ws j := by
  have hmin : min (j + 1) ws.length = min j ws.length := by omega
  simp only [poolFreed, hmin, WaitNodePool.mk.injEq, and_true]
  funext i
  rcases Nat.lt_trichotomy i j with h | h | h
  · simp [h, Nat.lt_succ_of_lt h]
  · subst h
    have hlen : ¬ i < ws.length := by omega
    simp [nodeFor, hlen]
  · have h₁ : ¬ i < j := by omega
    have h₂ : ¬ i < j + 1 := by omega
    simp [h₁, h₂]

end WaitNodePool

end Cortos
