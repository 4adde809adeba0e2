import Cortos.Lib.Transition
import Cortos.Kernel.Waitable

/-!
# The pool of wait nodes over any history

`Cortos.Kernel.WaitNodes` follows the one pattern in which the kernel uses a pool. Here the
operations come in any order, and the nodes that are handed out may belong to different
groups.

- `PoolOk`: the mask has a bit for exactly the nodes that are not handed out, and every node
  knows its slot and its thread.
- `PoolOk.alloc`, `PoolOk.free`, `PoolOk.resetAll`: each operation within its contract passes
  its assertions and keeps that.
- `PoolOk.forEachActive`: a loop that frees the nodes it visits visits the nodes of its
  group.
- `wait_node_pool_sound` is the result about runs.
-/

namespace Cortos

open Lib

/-! ## The other operations of the pool -/

namespace WaitNodePool

/-- `reset_all`. -/
def resetAll (N : Nat) (p : WaitNodePool) : WaitNodePool where
  nodes i := if i < N then (p.nodes i).reset else p.nodes i
  freeMask := allNodesFree N

/-- `free_count`. -/
def freeCount (p : WaitNodePool) : Nat := popcount p.freeMask

/-- The number of nodes that are handed out. -/
def activeCount (N : Nat) (p : WaitNodePool) : Nat :=
  (List.range N).countP fun i => (p.nodes i).active

section ForEachActive

variable {σ ε : Type} (pool : σ → WaitNodePool) (fn : σ → Nat → Except ε σ)

/-- One round of `for_each_active`; `fn` may change the pool. -/
def visit (onlyGroup : Option ThreadRef) (s : σ) (i : Nat) : Except ε σ :=
  let node := (pool s).nodes i
  if !node.active then .ok s
  else if onlyGroup.isSome && node.group != onlyGroup then .ok s
  else fn s i

/-- `for_each_active`. -/
def forEachActive (N : Nat) (onlyGroup : Option ThreadRef) (s : σ) : Except ε σ :=
  (List.range N).foldlM (visit pool fn onlyGroup) s

end ForEachActive

/-- A body that frees the node it is given. It records what it is given. -/
def freeVisited (N : Nat) (s : WaitNodePool × List Nat) (i : Nat) :
    Except Panic (WaitNodePool × List Nat) := do
  let p ← s.1.free N i
  return (p, s.2 ++ [i])

end WaitNodePool

/-- The second pass of `teardown_wait_group` is a `for_each_active` whose body frees the node
it is given. -/
theorem Kernel.foldlM_releaseNode (cfg : Config) (t group : ThreadRef) (k : Kernel) :
    (List.range cfg.maxWaitNodes).foldlM (releaseNode cfg t group) k =
      WaitNodePool.forEachActive (fun k => (k.tcbs t).waitNodes) (releaseNode cfg t group)
        cfg.maxWaitNodes (some group) k := by
  rw [WaitNodePool.forEachActive]
  congr 1
  funext k i
  rw [WaitNodePool.visit]
  cases hactive : ((k.tcbs t).waitNodes.nodes i).active with
  | false => simp [releaseNode, hactive]
  | true =>
    by_cases hgroup : ((k.tcbs t).waitNodes.nodes i).group = some group
    · simp [hgroup]
    · simp [releaseNode, hactive, hgroup]

/-! ## The invariant -/

/-- The mask agrees with the nodes, and the nodes know who they are. -/
structure PoolOk (N : Nat) (tcb : ThreadRef) (p : WaitNodePool) : Prop where
  mask : ∀ i, p.freeMask.getLsbD i = true ↔ i < N ∧ (p.nodes i).active = false
  identity : ∀ i < N, (p.nodes i).slot = i ∧ (p.nodes i).tcb = some tcb

namespace PoolOk

variable {N : Nat} {tcb : ThreadRef} {p p' : WaitNodePool}

theorem create (hN : N ≤ 32) (tcb : ThreadRef) : PoolOk N tcb (WaitNodePool.create N tcb) where
  mask i := by
    show (WaitNodePool.allNodesFree N).getLsbD i = true ↔ i < N ∧ false = false
    rw [WaitNodePool.getLsbD_allNodesFree hN, decide_eq_true_eq]
    exact ⟨fun hi => ⟨hi, rfl⟩, fun h => h.1⟩
  identity _ _ := ⟨rfl, rfl⟩

theorem resetAll (h : PoolOk N tcb p) (hN : N ≤ 32) : PoolOk N tcb (p.resetAll N) where
  mask i := by
    show (WaitNodePool.allNodesFree N).getLsbD i = true ↔
      i < N ∧ (if i < N then (p.nodes i).reset else p.nodes i).active = false
    rw [WaitNodePool.getLsbD_allNodesFree hN, decide_eq_true_eq]
    refine ⟨fun hi => ⟨hi, ?_⟩, fun h => h.1⟩
    rw [if_pos hi]
    rfl
  identity i hi := by
    show (if i < N then (p.nodes i).reset else p.nodes i).slot = i ∧
      (if i < N then (p.nodes i).reset else p.nodes i).tcb = some tcb
    rw [if_pos hi]
    exact h.identity i hi

/-- One node changes between handed out and free, with its bit. -/
theorem update {i : Nat} {node : WaitNode} {mask : BitVec 32} (h : PoolOk N tcb p) (hi : i < N)
    (hmask : ∀ j, mask.getLsbD j = if j = i then !node.active else p.freeMask.getLsbD j)
    (hslot : node.slot = (p.nodes i).slot) (htcb : node.tcb = (p.nodes i).tcb) :
    PoolOk N tcb { nodes := Function.update p.nodes i node, freeMask := mask } where
  mask j := by
    show mask.getLsbD j = true ↔ j < N ∧ (Function.update p.nodes i node j).active = false
    rw [hmask]
    by_cases hj : j = i
    · rw [if_pos hj, hj, Function.update_self, Bool.not_eq_true']
      exact ⟨fun hnode => ⟨hi, hnode⟩, fun h => h.2⟩
    · rw [if_neg hj, Function.update_of_ne hj]
      exact h.mask j
  identity j hj := by
    by_cases hji : j = i
    · show (Function.update p.nodes i node j).slot = j ∧ _
      rw [hji, Function.update_self, hslot]
      refine ⟨(h.identity i hi).1, ?_⟩
      show (Function.update p.nodes i node i).tcb = _
      rw [Function.update_self, htcb]
      exact (h.identity i hi).2
    · show (Function.update p.nodes i node j).slot = j ∧
        (Function.update p.nodes i node j).tcb = some tcb
      rw [Function.update_of_ne hji]
      exact h.identity j hj

/-! ## The operations -/

/-- A pool is exhausted when all its nodes are handed out. -/
theorem freeMask_eq_zero (h : PoolOk N tcb p) : p.freeMask = 0#32 ↔ p.activeCount N = N := by
  have hall : p.activeCount N = N ↔ ∀ i < N, (p.nodes i).active = true := by
    have hcount := List.countP_eq_length (p := fun i => (p.nodes i).active) (l := List.range N)
    simpa [WaitNodePool.activeCount] using hcount
  rw [hall, eq_zero_iff_getLsbD]
  constructor
  · intro hzero i hi
    by_contra hinactive
    have hbit := (h.mask i).mpr ⟨hi, Bool.eq_false_of_not_eq_true hinactive⟩
    rw [hzero] at hbit
    cases hbit
  · intro hactive i
    refine Bool.eq_false_iff.mpr fun hbit => ?_
    obtain ⟨hi, hinactive⟩ := (h.mask i).mp hbit
    rw [hactive i hi] at hinactive
    cases hinactive

/-- A node that `alloc` has initialised. -/
def allocated (tcb group : ThreadRef) (waitable : WaitableRef) (index i : Nat) : WaitNode where
  slot := i
  active := true
  tcb := some tcb
  waitable := some waitable
  group := some group
  index := index

/-- `alloc` hands out a node that was free, unless all are handed out. -/
theorem alloc (h : PoolOk N tcb p) (group : ThreadRef) (waitable : WaitableRef)
    {index : Nat} (hindex : index ≠ invalidIndex) :
    (p.activeCount N = N ∧ p.alloc group waitable index = .ok none) ∨
      p.activeCount N ≠ N ∧ ∃ i p', p.alloc group waitable index = .ok (some (i, p')) ∧ i < N ∧
        (p.nodes i).active = false ∧
        p'.nodes = Function.update p.nodes i (allocated tcb group waitable index i) ∧
        PoolOk N tcb p' := by
  have hassert : (index != invalidIndex) = true := bne_iff_ne.mpr hindex
  by_cases hzero : p.freeMask = 0#32
  · refine .inl ⟨h.freeMask_eq_zero.mp hzero, ?_⟩
    simp only [WaitNodePool.alloc, hassert, cortosAssert_bind_true, hzero, if_true]
    rfl
  · obtain ⟨-, hbit, -⟩ := countrZero_spec hzero
    obtain ⟨hi, hinactive⟩ := (h.mask _).mp hbit
    have hnode : { (p.nodes (countrZero p.freeMask)).reset with
        active := true, group := some group, waitable := some waitable, index := index } =
        allocated tcb group waitable index (countrZero p.freeMask) := by
      obtain ⟨hslot, htcb⟩ := h.identity _ hi
      simp [allocated, WaitNode.reset, hslot, htcb]
    refine .inr ⟨fun hfull => hzero (h.freeMask_eq_zero.mpr hfull), countrZero p.freeMask,
      ⟨_, clearBit p.freeMask (countrZero p.freeMask)⟩, ?_, hi, hinactive, rfl,
      h.update hi (fun j => ?_) ?_ ?_⟩
    · simp only [WaitNodePool.alloc, hassert, cortosAssert_bind_true, hzero, if_false, hinactive,
        Bool.not_false, hnode]
      rfl
    · rw [getLsbD_clearBit]
      by_cases hj : j = countrZero p.freeMask <;> simp [hj, allocated]
    · exact (h.identity _ hi).1.symm
    · exact (h.identity _ hi).2.symm

/-- `free` of a node that is handed out. -/
theorem free (h : PoolOk N tcb p) (hN : N ≤ 32) {i : Nat} (hi : i < N)
    (hactive : (p.nodes i).active = true) :
    p.free N i = .ok ⟨Function.update p.nodes i (p.nodes i).reset, setBit p.freeMask i⟩ ∧
      PoolOk N tcb ⟨Function.update p.nodes i (p.nodes i).reset, setBit p.freeMask i⟩ := by
  have hslot : ((p.nodes i).slot == i) = true := beq_iff_eq.mpr (h.identity i hi).1
  refine ⟨?_, h.update hi (fun j => ?_) rfl rfl⟩
  · simp only [WaitNodePool.free, decide_eq_true hi, hactive, hslot, cortosAssert_bind_true]
    rfl
  · rw [getLsbD_setBit]
    by_cases hj : j = i
    · simp [hj, WaitNode.reset, show i < 32 by omega]
    · simp [hj]

/-- The free nodes and those handed out make up the pool. -/
theorem freeCount_add (h : PoolOk N tcb p) (hN : N ≤ 32) :
    p.freeCount + p.activeCount N = N := by
  have hfree : p.freeCount = (List.range N).countP fun i => !(p.nodes i).active := by
    refine popcount_eq hN fun i => ?_
    rw [h.mask, Bool.not_eq_true']
  have hlength := List.length_eq_countP_add_countP (fun i => (p.nodes i).active) (l := List.range N)
  rw [List.length_range] at hlength
  rw [hfree, WaitNodePool.activeCount]
  simp only [Bool.not_eq_true, Bool.decide_eq_false] at hlength
  omega

/-! ## `for_each_active` -/

/-- The nodes of `group` that are handed out, among the first `n`. -/
def ofGroup (p : WaitNodePool) (group : ThreadRef) (n : Nat) : List Nat :=
  (List.range n).filter fun i => (p.nodes i).active && (p.nodes i).group == some group

theorem mem_ofGroup {group : ThreadRef} {n i : Nat} : i ∈ ofGroup p group n ↔
    i < n ∧ (p.nodes i).active = true ∧ (p.nodes i).group = some group := by
  simp [ofGroup]

theorem ofGroup_succ (p : WaitNodePool) (group : ThreadRef) (n : Nat) :
    ofGroup p group (n + 1) =
      if (p.nodes n).active && (p.nodes n).group == some group then ofGroup p group n ++ [n]
      else ofGroup p group n := by
  rw [ofGroup, List.range_succ, List.filter_append, List.filter_singleton]
  split
  · next hvisit =>
    rw [hvisit]
    rfl
  · next hvisit =>
    rw [Bool.eq_false_of_not_eq_true hvisit]
    exact List.append_nil _

/-- Freeing what it visits, the loop visits the nodes of the group and frees exactly these. -/
theorem forEachActive (h : PoolOk N tcb p) (hN : N ≤ 32) (group : ThreadRef) :
    ∃ p', WaitNodePool.forEachActive Prod.fst (WaitNodePool.freeVisited N) N (some group) (p, []) =
        .ok (p', ofGroup p group N) ∧ PoolOk N tcb p' ∧
      ∀ i, p'.nodes i = if i ∈ ofGroup p group N then (p.nodes i).reset else p.nodes i := by
  -- the loop has passed the first `n` nodes, and left the others alone
  suffices hloop : ∀ n ≤ N, ∃ p', (List.range n).foldlM
      (WaitNodePool.visit Prod.fst (WaitNodePool.freeVisited N) (some group)) (p, []) =
        .ok (p', ofGroup p group n) ∧ PoolOk N tcb p' ∧
      ∀ i, p'.nodes i = if i ∈ ofGroup p group n then (p.nodes i).reset else p.nodes i from
    hloop N le_rfl
  intro n
  induction n with
  | zero => exact fun _ => ⟨p, rfl, h, fun i => (if_neg (by simp [ofGroup])).symm⟩
  | succ n ih =>
    intro hn
    obtain ⟨p₁, hrun, hok, hnodes⟩ := ih (Nat.le_of_lt hn)
    have hsame : p₁.nodes n = p.nodes n := by
      rw [hnodes, if_neg fun hmem => Nat.lt_irrefl n (mem_ofGroup.mp hmem).1]
    rw [List.range_succ, List.foldlM_append, hrun, ok_bind, List.foldlM_cons, ofGroup_succ]
    by_cases hvisit : ((p.nodes n).active && (p.nodes n).group == some group) = true
    · obtain ⟨hactive, hgroup⟩ := Bool.and_eq_true_iff.mp hvisit
      obtain ⟨hfree, hok'⟩ := hok.free hN hn (hsame ▸ hactive)
      refine ⟨_, ?_, hok', fun i => ?_⟩
      · rw [if_pos hvisit]
        simp only [WaitNodePool.visit, hsame, hactive, beq_iff_eq.mp hgroup,
          WaitNodePool.freeVisited, hfree]
        simp [pure, Except.pure, bind, Except.bind]
      · show Function.update p₁.nodes n (p₁.nodes n).reset i = _
        rw [if_pos hvisit]
        by_cases hi : i = n
        · rw [hi, Function.update_self, hsame, if_pos (by simp)]
        · rw [Function.update_of_ne hi, hnodes]
          simp [hi]
    · rw [if_neg hvisit]
      refine ⟨p₁, ?_, hok, hnodes⟩
      have hskip : WaitNodePool.visit Prod.fst (WaitNodePool.freeVisited N) (some group)
          (p₁, ofGroup p group n) n = .ok (p₁, ofGroup p group n) := by
        simp only [WaitNodePool.visit, hsame]
        cases hactive : (p.nodes n).active with
        | false => rfl
        | true =>
          have hgroup : ((p.nodes n).group != some group) = true := by
            rw [hactive, Bool.true_and] at hvisit
            simpa [bne] using hvisit
          simp [hgroup]
      rw [hskip]
      rfl

end PoolOk

/-! ## Histories of a pool -/

/-- A call on the pool. -/
inductive PoolOp where
  | alloc (group : ThreadRef) (waitable : WaitableRef) (index : Nat)
  | free (slot : Nat)
  | resetAll

/-- A pool, and the nodes that `alloc` has returned and that have not been given back. -/
structure PoolState where
  pool : WaitNodePool
  outstanding : List Nat

/-- A node that is freed is one of the pool, and active. -/
def PoolOp.Within (N : Nat) (s : PoolState) : PoolOp → Prop
  | .free i => i < N ∧ (s.pool.nodes i).active = true
  | _ => True

instance (N : Nat) (s : PoolState) : (op : PoolOp) → Decidable (op.Within N s)
  | .free _ => inferInstanceAs (Decidable (_ ∧ _))
  | .alloc .. | .resetAll => inferInstanceAs (Decidable True)

/-- The calls on the pool of thread `tcb`, as a transition system. -/
def poolSystem (N : Nat) (tcb : ThreadRef) : Lts PoolState PoolOp Panic where
  init s := s = ⟨WaitNodePool.create N tcb, []⟩
  step s
    | .alloc group waitable index => do
      match ← s.pool.alloc group waitable index with
      | none => return s
      | some (i, pool) => return ⟨pool, s.outstanding ++ [i]⟩
    | .free i => do
      let pool ← s.pool.free N i
      return ⟨pool, s.outstanding.erase i⟩
    | .resetAll => .ok ⟨s.pool.resetAll N, []⟩

/-- What holds of a pool after any history. -/
structure PoolSound (N : Nat) (tcb : ThreadRef) (s : PoolState) : Prop where
  /-- The mask has a bit for exactly the inactive nodes. -/
  mask : ∀ i < N, s.pool.freeMask.getLsbD i = !(s.pool.nodes i).active
  above : ∀ i, N ≤ i → s.pool.freeMask.getLsbD i = false
  /-- `alloc` returns null exactly when all nodes are active. -/
  exhausted : ∀ group waitable index, index ≠ invalidIndex →
    (s.pool.alloc group waitable index = .ok none ↔ s.pool.activeCount N = N)
  /-- Otherwise it returns a node that was inactive and initialises it. -/
  fresh : ∀ group waitable index, index ≠ invalidIndex → s.pool.activeCount N ≠ N →
    ∃ i pool, s.pool.alloc group waitable index = .ok (some (i, pool)) ∧ i < N ∧
      (s.pool.nodes i).active = false ∧ i ∉ s.outstanding ∧
      pool.nodes i = ⟨i, true, some tcb, some waitable, some group, index⟩
  /-- The outstanding nodes are distinct, and they are the active ones. -/
  distinct : s.outstanding.Nodup
  outstanding : ∀ i, i ∈ s.outstanding ↔ i < N ∧ (s.pool.nodes i).active = true
  /-- `free` of an active node passes its assertions. -/
  freed : ∀ i < N, (s.pool.nodes i).active = true → ∃ pool, s.pool.free N i = .ok pool
  count : s.pool.freeCount + s.pool.activeCount N = N
  identity : ∀ i < N, (s.pool.nodes i).slot = i ∧ (s.pool.nodes i).tcb = some tcb
  /-- A loop over a group that frees what it visits visits every active node of the group
  once and no other node. -/
  visits : ∀ group, ∃ pool visited,
    WaitNodePool.forEachActive Prod.fst (WaitNodePool.freeVisited N) N (some group) (s.pool, []) =
      .ok (pool, visited) ∧ visited.Nodup ∧
    ∀ i, i ∈ visited ↔
      i < N ∧ (s.pool.nodes i).active = true ∧ (s.pool.nodes i).group = some group

/-- The pool is in order, and the outstanding nodes are the active ones. -/
structure PoolInv (N : Nat) (tcb : ThreadRef) (s : PoolState) : Prop where
  ok : PoolOk N tcb s.pool
  distinct : s.outstanding.Nodup
  outstanding : ∀ i, i ∈ s.outstanding ↔ i < N ∧ (s.pool.nodes i).active = true

namespace PoolInv

variable {N : Nat} {tcb : ThreadRef} {s s' : PoolState}

theorem initial (hN : N ≤ 32) (tcb : ThreadRef) :
    PoolInv N tcb ⟨WaitNodePool.create N tcb, []⟩ where
  ok := .create hN tcb
  distinct := List.nodup_nil
  outstanding i := by
    show i ∈ [] ↔ i < N ∧ false = true
    simp

theorem not_outstanding (h : PoolInv N tcb s) {i : Nat} (hfree : (s.pool.nodes i).active = false) :
    i ∉ s.outstanding := by
  intro hmem
  rw [((h.outstanding i).mp hmem).2] at hfree
  cases hfree

/-- `alloc` returns a node that is not outstanding. -/
theorem allocated (h : PoolInv N tcb s) {i : Nat} {node : WaitNode} {p : WaitNodePool} (hi : i < N)
    (hfree : (s.pool.nodes i).active = false) (hnode : node.active = true)
    (hnodes : p.nodes = Function.update s.pool.nodes i node) (hok : PoolOk N tcb p) :
    PoolInv N tcb ⟨p, s.outstanding ++ [i]⟩ := by
  refine ⟨hok, ?_, fun j => ?_⟩
  · rw [List.nodup_append]
    refine ⟨h.distinct, List.nodup_singleton i, ?_⟩
    rintro j hj _ hmem rfl
    rw [List.mem_singleton.mp hmem] at hj
    exact h.not_outstanding hfree hj
  · show j ∈ s.outstanding ++ [i] ↔ j < N ∧ (p.nodes j).active = true
    rw [hnodes]
    by_cases hj : j = i
    · rw [hj, Function.update_self]
      simp [hi, hnode]
    · rw [Function.update_of_ne hj, List.mem_append, h.outstanding]
      simp [hj]

/-- A freed node is no longer outstanding. -/
theorem freed (h : PoolInv N tcb s) {i : Nat} {mask : BitVec 32}
    (hok : PoolOk N tcb ⟨Function.update s.pool.nodes i (s.pool.nodes i).reset, mask⟩) :
    PoolInv N tcb ⟨⟨Function.update s.pool.nodes i (s.pool.nodes i).reset, mask⟩,
      s.outstanding.erase i⟩ := by
  refine ⟨hok, h.distinct.erase i, fun j => ?_⟩
  show j ∈ s.outstanding.erase i ↔
    j < N ∧ (Function.update s.pool.nodes i (s.pool.nodes i).reset j).active = true
  rw [h.distinct.mem_erase_iff, h.outstanding]
  by_cases hj : j = i
  · rw [hj, Function.update_self]
    simp [WaitNode.reset]
  · rw [Function.update_of_ne hj]
    simp [hj]

/-- **Step lemma.** -/
theorem step (h : PoolInv N tcb s) (hN : N ≤ 32) {op : PoolOp} (hwithin : op.Within N s)
    (hstep : (poolSystem N tcb).step s op = .ok s') : PoolInv N tcb s' := by
  cases op with
  | alloc group waitable index =>
    obtain ⟨r, halloc, hs'⟩ := bind_ok.mp hstep
    by_cases hindex : index = invalidIndex
    · -- the assertion about the index fails
      simp [WaitNodePool.alloc, hindex, cortosAssert, bind, Except.bind] at halloc
    · rcases h.ok.alloc group waitable hindex with
        ⟨-, hnone⟩ | ⟨-, i, p, hsome, hi, hfree, hnodes, hok⟩
      · rw [hnone] at halloc
        cases halloc
        cases hs'
        exact h
      · rw [hsome] at halloc
        cases halloc
        cases hs'
        exact h.allocated hi hfree rfl hnodes hok
  | free i =>
    obtain ⟨hi, hactive⟩ := hwithin
    obtain ⟨hfree, hok⟩ := h.ok.free hN hi hactive
    obtain ⟨pool, hfree', hs'⟩ := bind_ok.mp hstep
    rw [hfree] at hfree'
    cases hfree'
    cases hs'
    exact h.freed hok
  | resetAll =>
    cases hstep
    refine ⟨h.ok.resetAll hN, List.nodup_nil, fun i => ?_⟩
    show i ∈ [] ↔ i < N ∧ (if i < N then (s.pool.nodes i).reset else s.pool.nodes i).active = true
    refine iff_of_false List.not_mem_nil ?_
    rintro ⟨hi, hactive⟩
    rw [if_pos hi] at hactive
    cases hactive

end PoolInv

/-- **The pool of wait nodes is sound**, for every size up to 32 and after every history of
calls within their contracts. -/
theorem wait_node_pool_sound {N : Nat} (hN : N ≤ 32) (tcb : ThreadRef) {s : PoolState}
    (hreach : (poolSystem N tcb).ReachVia (fun s op => op.Within N s) s) : PoolSound N tcb s := by
  have h : PoolInv N tcb s := by
    refine hreach.invariant (fun s hs => ?_) fun s op s' _ hinv hwithin hstep =>
      hinv.step hN hwithin hstep
    cases hs
    exact .initial hN tcb
  constructor
  case mask =>
    intro i hi
    have hbit := h.ok.mask i
    cases hactive : (s.pool.nodes i).active <;> simp_all
  case above =>
    intro i hi
    refine Bool.eq_false_iff.mpr fun hbit => ?_
    exact absurd ((h.ok.mask i).mp hbit).1 (Nat.not_lt_of_le hi)
  case exhausted =>
    intro group waitable index hindex
    rcases h.ok.alloc group waitable hindex with ⟨hfull, hnone⟩ | ⟨hfull, i, p, hsome, -⟩
    · exact iff_of_true hnone hfull
    · rw [hsome]
      exact iff_of_false nofun hfull
  case fresh =>
    intro group waitable index hindex hroom
    rcases h.ok.alloc group waitable hindex with ⟨hfull, -⟩ | ⟨-, i, p, hsome, hi, hfree, hnodes, -⟩
    · exact absurd hfull hroom
    · refine ⟨i, p, hsome, hi, hfree, h.not_outstanding hfree, ?_⟩
      rw [hnodes, Function.update_self]
      rfl
  case distinct => exact h.distinct
  case outstanding => exact h.outstanding
  case freed => exact fun i hi hactive => ⟨_, (h.ok.free hN hi hactive).1⟩
  case count => exact h.ok.freeCount_add hN
  case identity => exact h.ok.identity
  case visits =>
    intro group
    obtain ⟨p, hrun, -, -⟩ := h.ok.forEachActive hN group
    refine ⟨p, _, hrun, List.nodup_range.filter _, fun i => PoolOk.mem_ofGroup⟩

/-- A full pool of 32 nodes, of two groups in turn, some of which have been freed. -/
def mixedPool : List PoolOp :=
  (List.range 32).map (fun i => .alloc (.user (i % 2)) (.object i) i) ++ [.free 5, .free 0,
    .alloc (.user 7) (.object 9) 3]

/-- The theorem at this history. -/
theorem mixed_pool_sound : ∃ s, PoolSound 32 (.user 0) s ∧ s.outstanding.length = 31 ∧
    (s.pool.nodes 0).group = some (.user 7) ∧ (s.pool.nodes 5).active = false := by
  have hrun : (poolSystem 32 (.user 0)).runsTo (fun s op => op.Within 32 s)
      (fun s => s.outstanding.length = 31 ∧ (s.pool.nodes 0).group = some (.user 7) ∧
        (s.pool.nodes 5).active = false) ⟨WaitNodePool.create 32 (.user 0), []⟩ mixedPool =
      true := by
    decide +kernel
  obtain ⟨s, hreach, hlength, hgroup, hfree⟩ := Lts.ReachVia.runsTo (.init rfl) hrun
  exact ⟨s, wait_node_pool_sound (by decide) (.user 0) hreach, hlength, hgroup, hfree⟩

end Cortos
