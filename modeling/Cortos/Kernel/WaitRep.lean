import Mathlib.Data.List.MinMax
import Mathlib.Data.List.ProdSigma
import Cortos.Kernel.Waitable

/-!
# What the wait operations maintain

`WaitRep cfg k held wl`: thread `t` holds one active node for each waitable in
`held t`, in slot order, its pool has exactly the other nodes free, and the wait
queue of `w` is the plain list `wl w`, which has the nodes held for `w` and no
other. A thread that is not waiting holds `[]`.

- `WaitRep.prepareBlock`: a running thread that holds nothing blocks on any list
  of distinct waitables without failing an assertion;
- `WaitRep.teardownWaitGroup`: all nodes of a thread are detached at once, the
  other nodes keep their order;
- `WaitRep.pickBest`: the scan terminates, passes its assertions and returns the
  first of the most urgent nodes whose group is not won yet.
-/

namespace Cortos

open Lib WaitNodePool

/-! ## The group lock -/

/-- On a list sorted by address, comparing neighbours finds every repetition. -/
theorem adjacentDistinct_iff {cfg : Config} :
    ∀ {ws : List WaitableRef}, ws.Pairwise (fun v w => cfg.address v ≤ cfg.address w) →
      (adjacentDistinct ws = true ↔ ws.Nodup)
  | [], _ => by simp [adjacentDistinct]
  | [_], _ => by simp [adjacentDistinct]
  | v :: w :: ws, h => by
    obtain ⟨hv, htl⟩ := List.pairwise_cons.mp h
    simp only [adjacentDistinct, Bool.and_eq_true, bne_iff_ne, ne_eq,
      adjacentDistinct_iff htl, List.nodup_cons (a := v)]
    refine and_congr_left fun _ => ⟨fun hvw hmem => ?_, fun hmem hvw => hmem (by simp [hvw])⟩
    rcases List.mem_cons.mp hmem with rfl | hmem
    · exact hvw rfl
    · have h₁ := hv w (by simp)
      have h₂ := (List.pairwise_cons.mp htl).1 v hmem
      exact hvw (cfg.address_inj (Nat.le_antisymm h₁ h₂))

/-- The group lock accepts exactly the lists of distinct waitables that fit. -/
theorem groupLock_ok {cfg : Config} {ws g : List WaitableRef} :
    groupLock cfg ws = .ok g ↔
      (ws.length ≤ cfg.maxWaitNodes ∧ ws.Nodup) ∧ g = sortByAddress cfg ws := by
  have : IsTrans WaitableRef fun v w => cfg.address v ≤ cfg.address w :=
    ⟨fun _ _ _ => Nat.le_trans⟩
  have : Std.Total fun v w : WaitableRef => cfg.address v ≤ cfg.address w :=
    ⟨fun _ _ => Nat.le_total _ _⟩
  have hsorted := List.pairwise_insertionSort
    (fun v w : WaitableRef => cfg.address v ≤ cfg.address w) ws
  have hperm := List.perm_insertionSort
    (fun v w : WaitableRef => cfg.address v ≤ cfg.address w) ws
  simp only [groupLock, bind_ok, cortosAssert_ok, exists_const, decide_eq_true_eq,
    sortByAddress, adjacentDistinct_iff hsorted, hperm.nodup_iff, pure, Except.pure,
    Except.ok.injEq, and_assoc, eq_comm (a := g)]

/-! ## Representation -/

/-- The kernel with the pool of `t` and the wait links replaced. -/
def Kernel.setPool (k : Kernel) (t : ThreadRef) (pool : WaitNodePool)
    (links : Links WaitableRef NodeRef) : Kernel :=
  { k with
    tcbs := Function.update k.tcbs t { k.tcbs t with waitNodes := pool }
    waiters := links }

/-- The kernel after `t` has blocked on `ws`. -/
def Kernel.blockOn (cfg : Config) (k : Kernel) (t : ThreadRef) (ws : List WaitableRef)
    (links : Links WaitableRef NodeRef) : Kernel :=
  { k with
    tcbs := Function.update k.tcbs t
      { k.tcbs t with
        state := .blocked
        waitGroup := Kernel.beginGroup ws.length
        waitNodes := poolFor cfg.maxWaitNodes t ws }
    waiters := links }

theorem Kernel.setPool_setPool (k : Kernel) (t : ThreadRef) (p p' : WaitNodePool)
    (l l' : Links WaitableRef NodeRef) :
    (k.setPool t p l).setPool t p' l' = k.setPool t p' l' := by
  simp [Kernel.setPool]

theorem getElem?_concat_eq_some {α : Type} {l : List α} {a b : α} {i : Nat} :
    (l ++ [a])[i]? = some b ↔ l[i]? = some b ∨ (i = l.length ∧ a = b) := by
  rw [List.getElem?_append]
  split
  · next hi => simp [Nat.ne_of_lt hi]
  · next hi =>
    rcases Nat.eq_or_lt_of_not_lt hi with hi | hi
    · simp [hi]
    · have : i - l.length ≠ 0 := by omega
      simp [Nat.ne_of_gt hi, List.getElem?_eq_none (Nat.le_of_lt hi), this]

/-- The wait nodes of all threads and the wait queues of all waitables
represent what each thread waits on. -/
structure WaitRep (cfg : Config) (k : Kernel) (held : ThreadRef → List WaitableRef)
    (wl : WaitableRef → List NodeRef) : Prop where
  links : k.waiters.Rep wl
  pools : ∀ t, (k.tcbs t).waitNodes = poolFor cfg.maxWaitNodes t (held t)
  mem : ∀ w n, n ∈ wl w ↔ (held n.owner)[n.slot]? = some w
  bound : ∀ t, (held t).length ≤ cfg.maxWaitNodes
  nodup : ∀ t, (held t).Nodup

namespace WaitRep

variable {cfg : Config} {k : Kernel} {held : ThreadRef → List WaitableRef}
  {wl : WaitableRef → List NodeRef}

/-- Only the pools and the links matter. -/
theorem congr (h : WaitRep cfg k held wl) {k' : Kernel} (hl : k'.waiters = k.waiters)
    (hp : ∀ t, (k'.tcbs t).waitNodes = (k.tcbs t).waitNodes) : WaitRep cfg k' held wl where
  links := hl ▸ h.links
  pools t := by rw [hp, h.pools]
  mem := h.mem
  bound := h.bound
  nodup := h.nodup

/-- A queued node, read off its pool. -/
theorem node_eq (h : WaitRep cfg k held wl) (n : NodeRef) :
    k.node n = nodeFor n.owner (held n.owner) n.slot := by
  simp [Kernel.node, h.pools, poolFor]

/-- The slots at or past `held t` are on no queue. -/
theorem not_mem (h : WaitRep cfg k held wl) {t : ThreadRef} {i : Nat}
    (hi : (held t).length ≤ i) (w : WaitableRef) : (⟨t, i⟩ : NodeRef) ∉ wl w := by
  rw [h.mem]
  simp [List.getElem?_eq_none hi]

/-! ### Blocking -/

/-- The wait queues after `t` has appended its nodes for `ws`, numbered from
`i`. -/
def enlist (t : ThreadRef) : (WaitableRef → List NodeRef) → Nat → List WaitableRef →
    WaitableRef → List NodeRef
  | wl, _, [] => wl
  | wl, i, w :: ws => enlist t (Function.update wl w (wl w ++ [⟨t, i⟩])) (i + 1) ws

/-- Replacing a pool by the form for `ws`, with links to match. -/
theorem setPool (h : WaitRep cfg k held wl) {t : ThreadRef} {ws : List WaitableRef}
    {links : Links WaitableRef NodeRef} {wl' : WaitableRef → List NodeRef}
    (hlinks : links.Rep wl')
    (hmem : ∀ w n, n ∈ wl' w ↔ (Function.update held t ws n.owner)[n.slot]? = some w)
    (hlen : ws.length ≤ cfg.maxWaitNodes) (hnd : ws.Nodup) :
    WaitRep cfg (k.setPool t (poolFor cfg.maxWaitNodes t ws) links)
      (Function.update held t ws) wl' where
  links := hlinks
  pools u := by
    by_cases hu : u = t
    · subst hu
      simp [Kernel.setPool]
    · simp [Kernel.setPool, hu, h.pools]
  mem := hmem
  bound u := by
    by_cases hu : u = t
    · subst hu
      simpa using hlen
    · simpa [hu] using h.bound u
  nodup u := by
    by_cases hu : u = t
    · subst hu
      simpa using hnd
    · simpa [hu] using h.nodup u

/-- One round of the loop of `prepare_block`: the next node is allocated and
appended. -/
theorem allocNode_addWaiter (h : WaitRep cfg k held wl) {t : ThreadRef} {w : WaitableRef}
    (hlen : (held t).length < cfg.maxWaitNodes) (hw : w ∉ held t) :
    ∃ n k' links, k.allocNode t w (held t).length = .ok (some (n, k')) ∧
      k'.addWaiter w n = .ok (k.setPool t (poolFor cfg.maxWaitNodes t (held t ++ [w])) links) ∧
      WaitRep cfg (k.setPool t (poolFor cfg.maxWaitNodes t (held t ++ [w])) links)
        (Function.update held t (held t ++ [w]))
        (Function.update wl w (wl w ++ [⟨t, (held t).length⟩])) := by
  have hout : ∀ v, (⟨t, (held t).length⟩ : NodeRef) ∉ wl v := h.not_mem (Nat.le_refl _)
  refine ⟨⟨t, (held t).length⟩,
    k.setPool t (poolFor cfg.maxWaitNodes t (held t ++ [w])) k.waiters,
    k.waiters.pushBack w ⟨t, (held t).length⟩, ?_, ?_, ?_⟩
  · simp only [Kernel.allocNode, h.pools, alloc_poolFor cfg.waitNodes_le t w hlen, ok_bind,
      h.links.clear_eq hout]
    rfl
  · -- `alloc` has already set the node's waitable
    have hsame : Function.update (nodeFor t (held t ++ [w])) (held t).length
        { nodeFor t (held t ++ [w]) (held t).length with waitable := some w } =
        nodeFor t (held t ++ [w]) :=
      Function.update_eq_self_iff.mpr (by simp [nodeFor])
    have hwait : (nodeFor t (held t ++ [w]) (held t).length).waitable = some w := by
      simp [nodeFor]
    simp [Kernel.addWaiter, Kernel.setPool, Kernel.node, Kernel.modifyNode, Kernel.modifyTcb,
      poolFor, hwait, h.links.not_isEnqueued hout, hsame, pure, Except.pure]
  · refine h.setPool (h.links.pushBack hout) (fun v n => ?_) (by simp; omega) ?_
    · obtain ⟨u, i⟩ := n
      have hmem := h.mem v ⟨u, i⟩
      by_cases hu : u = t
      · subst hu
        rw [Function.update_self, getElem?_concat_eq_some, ← hmem]
        by_cases hv : v = w
        · subst hv
          simp
        · rw [Function.update_of_ne hv]
          simp [Ne.symm hv]
      · rw [Function.update_of_ne hu, ← hmem]
        by_cases hv : v = w
        · subst hv
          simp [hu]
        · rw [Function.update_of_ne hv]
    · simpa [List.nodup_append, h.nodup t] using fun v hv (hvw : v = w) => hw (hvw ▸ hv)

/-- The whole loop of `prepare_block`. -/
theorem enqueueNodes {t : ThreadRef} {ws : List WaitableRef} :
    ∀ {k : Kernel} {held : ThreadRef → List WaitableRef} {wl : WaitableRef → List NodeRef},
      WaitRep cfg k held wl → (held t ++ ws).length ≤ cfg.maxWaitNodes → (held t ++ ws).Nodup →
      ∃ links, Kernel.enqueueNodes t k (held t).length ws =
          .ok (k.setPool t (poolFor cfg.maxWaitNodes t (held t ++ ws)) links) ∧
        WaitRep cfg (k.setPool t (poolFor cfg.maxWaitNodes t (held t ++ ws)) links)
          (Function.update held t (held t ++ ws)) (enlist t wl (held t).length ws) := by
  induction ws with
  | nil =>
    intro k held wl h hlen hnd
    have hsame : k.setPool t (poolFor cfg.maxWaitNodes t (held t ++ [])) k.waiters = k := by
      rw [List.append_nil, ← h.pools]
      simp [Kernel.setPool]
    exact ⟨k.waiters, by rw [hsame]; rfl, by rw [hsame]; simpa [enlist] using h⟩
  | cons w ws ih =>
    intro k held wl h hlen hnd
    have hw : w ∉ held t := by
      rw [List.nodup_append] at hnd
      exact fun hmem => hnd.2.2 w hmem w (by simp) rfl
    have hlt : (held t).length < cfg.maxWaitNodes := by
      simp at hlen
      omega
    obtain ⟨n, k', links, halloc, hadd, hrep⟩ := h.allocNode_addWaiter hlt hw
    obtain ⟨links', hrest, hrep'⟩ := ih hrep (by simpa using hlen) (by simpa using hnd)
    simp only [Function.update_self, Function.update_idem, List.append_assoc,
      List.cons_append, List.nil_append, List.length_append, List.length_cons,
      List.length_nil, Nat.zero_add] at hrest hrep'
    refine ⟨links', ?_, ?_⟩
    · simp only [Kernel.enqueueNodes, halloc, ok_bind, hadd, hrest, Kernel.setPool_setPool]
    · rw [Kernel.setPool_setPool] at hrep'
      exact hrep'

/-- **Blocking**: a running thread that holds no node blocks on any list of
distinct waitables that fits, and no assertion on the way fails. -/
theorem prepareBlock (h : WaitRep cfg k held wl) {t : ThreadRef} {ws : List WaitableRef}
    (hheld : held t = []) (hrun : k.state t = .running) (hpos : 0 < ws.length)
    (hlen : ws.length ≤ cfg.maxWaitNodes) (hnd : ws.Nodup) :
    ∃ links, k.prepareBlock cfg t ws = .ok (k.blockOn cfg t ws links) ∧
      WaitRep cfg (k.blockOn cfg t ws links) (Function.update held t ws) (enlist t wl 0 ws) := by
  have hbegin : WaitRep cfg
      (k.modifyTcb t fun b => { b with waitGroup := Kernel.beginGroup ws.length }) held wl := by
    refine h.congr rfl fun u => ?_
    by_cases hu : u = t
    · subst hu
      simp [Kernel.modifyTcb]
    · simp [Kernel.modifyTcb, hu]
  have hlen' : (held t ++ ws).length ≤ cfg.maxWaitNodes := by simpa [hheld] using hlen
  obtain ⟨links, hloop, hrep⟩ := hbegin.enqueueNodes hlen' (by simpa [hheld] using hnd)
  simp only [hheld, List.nil_append, List.length_nil] at hloop hrep
  refine ⟨links, ?_, ?_⟩
  · simp only [Kernel.prepareBlock, hrun, beq_self_eq_true, hpos, hlen, decide_true,
      cortosAssert_bind_true, hloop, ok_bind]
    simp [Kernel.setPool, Kernel.modifyTcb, Kernel.setState, Kernel.blockOn, pure, Except.pure]
  · refine hrep.congr rfl fun u => ?_
    by_cases hu : u = t
    · subst hu
      simp [Kernel.setPool, Kernel.blockOn]
    · simp [Kernel.setPool, Kernel.modifyTcb, Kernel.blockOn, hu]

/-! ### Teardown -/

/-- The first pass of the teardown collects exactly what the thread holds. -/
theorem collectWaitables (h : WaitRep cfg k held wl) (t : ThreadRef) :
    (List.range cfg.maxWaitNodes).foldlM (k.collectWaitable cfg t t) [] = .ok (held t) := by
  have hloop : ∀ m ≤ cfg.maxWaitNodes,
      (List.range m).foldlM (k.collectWaitable cfg t t) [] = .ok ((held t).take m) := by
    intro m hm
    induction m with
    | zero => rfl
    | succ m ih =>
      rw [List.range_succ, List.foldlM_append, ih (by omega)]
      simp only [List.foldlM_cons, List.foldlM_nil, ok_bind]
      by_cases hlt : m < (held t).length
      · have hcap : ((held t).take m).length < cfg.maxWaitNodes := by
          rw [List.length_take]
          omega
        simp only [Kernel.collectWaitable, h.pools, poolFor, nodeFor, hlt, decide_true, if_true,
          beq_self_eq_true, Bool.and_self, List.getElem?_eq_getElem hlt, hcap,
          cortosAssert_bind_true, List.take_add_one, Option.toList_some]
        rfl
      · have hle := Nat.le_of_not_lt hlt
        rw [List.take_of_length_le hle, List.take_of_length_le (Nat.le_succ_of_le hle)]
        simp [Kernel.collectWaitable, h.pools, poolFor, nodeFor, hlt, pure, Except.pure]
  rw [hloop _ (Nat.le_refl _), List.take_of_length_le (h.bound t)]

/-- The wait queues without the nodes of `t` in the slots below `j`. -/
def keepFrom (t : ThreadRef) (j : Nat) (wl : WaitableRef → List NodeRef) (w : WaitableRef) :
    List NodeRef :=
  (wl w).filter fun n => decide (n.owner ≠ t ∨ j ≤ n.slot)

theorem keepFrom_succ (t : ThreadRef) (j : Nat) (wl : WaitableRef → List NodeRef)
    (w : WaitableRef) : keepFrom t (j + 1) wl w = (keepFrom t j wl w).filter (· != ⟨t, j⟩) := by
  rw [keepFrom, keepFrom, List.filter_filter]
  refine List.filter_congr fun n _ => ?_
  obtain ⟨u, i⟩ := n
  rw [Bool.eq_iff_iff]
  by_cases hu : u = t
  · simp [hu]
    omega
  · simp [hu]

/-- `removeWaiter` only touches the link fields and the node's waitable, which
`free` resets anyway. -/
theorem free_clear_waitable (N : Nat) (p : WaitNodePool) (i : Nat) :
    { p with nodes := Function.update p.nodes i { p.nodes i with waitable := none } }.free N i =
      p.free N i := by
  simp [free, WaitNode.reset]

/-- One round of the second pass: slot `j` is unlinked and freed, or skipped if
the thread holds no node there. -/
theorem releaseNode (h : WaitRep cfg k held wl) {t : ThreadRef} {j : Nat}
    {links : Links WaitableRef NodeRef} (hlinks : links.Rep (keepFrom t j wl)) :
    ∃ links', Kernel.releaseNode cfg t t
        (k.setPool t (poolFreed cfg.maxWaitNodes t (held t) j) links) j =
          .ok (k.setPool t (poolFreed cfg.maxWaitNodes t (held t) (j + 1)) links') ∧
      links'.Rep (keepFrom t (j + 1) wl) := by
  have hnode : (poolFreed cfg.maxWaitNodes t (held t) j).nodes j = nodeFor t (held t) j := by
    simp [poolFreed]
  by_cases hlt : j < (held t).length
  · -- the node is queued on the thread's `j`-th waitable
    have hget : (held t)[j]? = some (held t)[j] := by simp [hlt]
    have hmem : (⟨t, j⟩ : NodeRef) ∈ keepFrom t j wl (held t)[j] := by
      simp [keepFrom, (h.mem _ ⟨t, j⟩).mpr hget]
    have hunlink := hlinks.unlink_erase hmem
    have hkeep : Function.update (keepFrom t j wl) (held t)[j]
        ((keepFrom t j wl (held t)[j]).erase ⟨t, j⟩) = keepFrom t (j + 1) wl := by
      funext w
      rw [keepFrom_succ]
      by_cases hw : w = (held t)[j]
      · subst hw
        rw [Function.update_self, (hlinks.nodup _).erase_eq_filter]
      · rw [Function.update_of_ne hw]
        refine (List.filter_eq_self.mpr fun n hn => ?_).symm
        rw [bne_iff_ne]
        rintro rfl
        have := (h.mem w ⟨t, j⟩).mp (List.mem_filter.mp hn).1
        exact hw (Option.some.inj (this.symm.trans hget))
    rw [hkeep] at hunlink
    have hout : ∀ w, (⟨t, j⟩ : NodeRef) ∉ keepFrom t (j + 1) wl w := by
      simp [keepFrom_succ]
    refine ⟨links.unlink (held t)[j] ⟨t, j⟩, ?_, hunlink⟩
    have hfree := free_poolFreed (N := cfg.maxWaitNodes) t hlt (h.bound t)
    rw [← free_clear_waitable] at hfree
    simp only [Kernel.releaseNode, Kernel.removeWaiter, Kernel.setPool, Kernel.node,
      Function.update_self, hnode, nodeFor, hlt, decide_true, if_true, beq_self_eq_true,
      Bool.and_self, hget, Kernel.modifyNode, Kernel.modifyTcb]
    simp only [nodeFor, hnode, hlt, decide_true, hget, if_true] at hfree
    rw [hfree]
    simp [hunlink.clear_eq hout, pure, Except.pure]
  · have hkeep : keepFrom t (j + 1) wl = keepFrom t j wl := by
      funext w
      rw [keepFrom_succ]
      refine List.filter_eq_self.mpr fun n hn => ?_
      rw [bne_iff_ne]
      rintro rfl
      exact h.not_mem (Nat.le_of_not_lt hlt) w (List.mem_filter.mp hn).1
    refine ⟨links, ?_, hkeep ▸ hlinks⟩
    rw [poolFreed_skip t (Nat.le_of_not_lt hlt)]
    simp [Kernel.releaseNode, Kernel.setPool, hnode, nodeFor, hlt]

/-- The wait queues once all nodes of `t` are gone. -/
def detach (t : ThreadRef) (wl : WaitableRef → List NodeRef) (w : WaitableRef) : List NodeRef :=
  (wl w).filter (·.owner ≠ t)

/-- **Teardown**: all nodes of `t` are detached and freed, no assertion fails,
and the nodes of the other threads keep their order. -/
theorem teardownWaitGroup (h : WaitRep cfg k held wl) (t : ThreadRef) :
    ∃ links, k.teardownWaitGroup cfg t t =
        .ok (k.setPool t (poolFor cfg.maxWaitNodes t []) links) ∧
      WaitRep cfg (k.setPool t (poolFor cfg.maxWaitNodes t []) links)
        (Function.update held t []) (detach t wl) := by
  have hloop : ∀ j, ∃ links,
      (List.range j).foldlM (Kernel.releaseNode cfg t t) k =
        .ok (k.setPool t (poolFreed cfg.maxWaitNodes t (held t) j) links) ∧
      links.Rep (keepFrom t j wl) := by
    intro j
    induction j with
    | zero =>
      refine ⟨k.waiters, ?_, ?_⟩
      · rw [poolFreed_zero, ← h.pools]
        simp [Kernel.setPool, pure, Except.pure]
      · have : keepFrom t 0 wl = wl := by
          funext w
          simp [keepFrom]
        rw [this]
        exact h.links
    | succ j ih =>
      obtain ⟨links, hrun, hrep⟩ := ih
      obtain ⟨links', hstep, hrep'⟩ := h.releaseNode hrep
      refine ⟨links', ?_, hrep'⟩
      rw [List.range_succ, List.foldlM_append, hrun]
      simp [hstep, pure, Except.pure]
  obtain ⟨links, hrun, hrep⟩ := hloop cfg.maxWaitNodes
  rw [poolFreed_all cfg.waitNodes_le t (h.bound t)] at hrun
  have hkeep : keepFrom t cfg.maxWaitNodes wl = detach t wl := by
    funext w
    refine List.filter_congr fun n hn => ?_
    have hslot : n.owner = t → ¬ cfg.maxWaitNodes ≤ n.slot := by
      rintro rfl hle
      exact h.not_mem (Nat.le_trans (h.bound n.owner) hle) w hn
    by_cases ho : n.owner = t
    · simp [ho, hslot ho]
    · simp [ho]
  have hlock : groupLock cfg (held t) = .ok (sortByAddress cfg (held t)) :=
    groupLock_ok.mpr ⟨⟨h.bound t, h.nodup t⟩, rfl⟩
  refine ⟨links, ?_, h.setPool (hkeep ▸ hrep) (fun w n => ?_) (Nat.zero_le _) List.nodup_nil⟩
  · simp only [Kernel.teardownWaitGroup, h.collectWaitables, ok_bind, hlock, hrun]
  · by_cases ho : n.owner = t
    · simp [detach, ho]
    · simp [detach, ho, h.mem]

/-! ### Picking a waiter -/

/-- The waiters of `w` whose group is not won yet, in queue order. -/
def eligible (k : Kernel) (ns : List NodeRef) : List NodeRef :=
  ns.filter fun n => !k.done n.owner

/-- The loop of `pick_best` over the rest of the queue is Mathlib's `argmin`,
started from the best node so far. -/
theorem pickBestFrom (h : WaitRep cfg k held wl) (w : WaitableRef) :
    ∀ (fuel : Nat) (done rest : List NodeRef) (best : Option NodeRef) (bestPriority : Nat),
      wl w = done ++ rest → rest.length ≤ fuel →
      (∀ n ∈ best, bestPriority = k.priority n.owner) →
      k.pickBestFrom w fuel rest.head? best bestPriority =
        .ok ((eligible k rest).foldl
          (List.argAux fun m n => k.priority m.owner < k.priority n.owner) best)
  | _, _, [], _, _ => fun _ _ _ => by simp [Kernel.pickBestFrom, eligible]
  | 0, _, _ :: _, _, _ => fun _ hlen _ => by simp at hlen
  | fuel + 1, done, n :: rest, best, bestPriority => fun hwl hlen hbest => by
    have hn : (held n.owner)[n.slot]? = some w := (h.mem w n).mp (by simp [hwl])
    have hlt : n.slot < (held n.owner).length := (List.getElem?_eq_some_iff.mp hn).1
    have hnext : k.waiters.next n = rest.head? := (h.links.link w done n rest hwl).2
    have ih := fun b p => h.pickBestFrom w fuel (done ++ [n]) rest b p
      (by simpa using hwl) (by simpa using hlen)
    simp only [List.head?_cons, Kernel.pickBestFrom, h.node_eq, nodeFor, hlt, decide_true, hn,
      beq_self_eq_true, cortosAssert_bind_true, if_true, hnext]
    by_cases hdone : k.done n.owner = true
    · rw [if_pos hdone, ih best bestPriority hbest]
      simp [eligible, hdone]
    · rw [if_neg hdone]
      cases best with
      | none =>
        rw [if_pos (by simp), ih _ _ (by simp)]
        simp [eligible, hdone, List.argAux]
      | some m =>
        have hm : bestPriority = k.priority m.owner := hbest m rfl
        by_cases hlt' : k.priority n.owner < bestPriority
        · rw [if_pos (by simp [hlt']), ih _ _ (by simp)]
          simp [eligible, hdone, List.argAux, ← hm, hlt']
        · rw [if_neg (by simp [hlt']), ih _ _ hbest]
          simp [eligible, hdone, List.argAux, ← hm, hlt']

/-- No queue is longer than the nodes of the constructed threads. -/
theorem length_le (h : WaitRep cfg k held wl)
    (hthreads : ∀ t, held t ≠ [] → ∃ i < k.threads, t = .user i) (w : WaitableRef) :
    (wl w).length ≤ k.threads * cfg.maxWaitNodes := by
  let nodes := (List.range k.threads ×ˢ List.range cfg.maxWaitNodes).map
    fun p => (⟨.user p.1, p.2⟩ : NodeRef)
  have hsub : wl w ⊆ nodes := by
    intro n hn
    have hget := (h.mem w n).mp hn
    have hslot := (List.getElem?_eq_some_iff.mp hget).1
    obtain ⟨i, hi, ho⟩ := hthreads n.owner (by rintro hnil; simp [hnil] at hget)
    refine List.mem_map.mpr ⟨(i, n.slot), List.mem_product.mpr ?_, ?_⟩
    · exact ⟨List.mem_range.mpr hi,
        List.mem_range.mpr (Nat.lt_of_lt_of_le hslot (h.bound n.owner))⟩
    · rw [← ho]
  calc (wl w).length ≤ nodes.length := (List.subperm_of_subset (h.links.nodup w) hsub).length_le
    _ = k.threads * cfg.maxWaitNodes := by
      rw [List.length_map, List.length_product, List.length_range, List.length_range]

/-- **Picking**: the scan ends, passes its assertions, and returns the first of
the most urgent waiters whose group is not won yet. -/
theorem pickBest (h : WaitRep cfg k held wl)
    (hthreads : ∀ t, held t ≠ [] → ∃ i < k.threads, t = .user i) (w : WaitableRef) :
    k.pickBest cfg w =
      .ok ((eligible k (wl w)).argmin fun n => k.priority n.owner) := by
  rw [Kernel.pickBest, h.links.head]
  exact h.pickBestFrom w _ [] (wl w) none 255 rfl (h.length_le hthreads w) (by simp)

end WaitRep

end Cortos
