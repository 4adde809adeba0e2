import Cortos.Machine.Observation

/-!
# The kernel state on a single core

With one core nothing is ever posted to an inbox, and outside the kernel call of
the current thread no thread is on its way from one state to another. So the
phases of all threads are *settled* (`Phase.settled`): ready, running, waiting or
terminated. The two invariants of this file read off what that means in memory:

- `selection_invariant`: thread states, ready matrix and current thread, each
  time `Scheduler::start` or `Scheduler::reschedule` has selected a thread;
- `wait_structure_invariant`: wait queues, wait nodes and pools, between kernel
  calls.
-/

namespace Cortos

open Lib WaitNodePool

variable {cfg : Config} {m m' : Machine} {a a' : Life} {c : Nat} {t x : ThreadRef}

/-! ## Settled states -/

/-- The phases a thread can be in while no kernel call is acting on it. -/
def Phase.settled : Phase → Bool
  | unborn | ready | running | waiting _ | dead => true
  | pinned _ | postedNew | won _ _ | torn _ | posted => false

/-- On a single core the phases are settled when no thread acts on another. -/
theorem Sim.settled (h : Sim cfg m a) (hcores : cfg.cores = 1)
    (hclaim : ∀ t, (m.fiber t).claim = none) (t : ThreadRef) : (a.phase t).settled = true := by
  have hnoclaim : (a.phase t).claim = none := by
    cases hc : (a.phase t).claim with
    | none => rfl
    | some uκ =>
      have := (h.claims t uκ.1 uκ.2).mpr hc
      rw [hclaim] at this
      cases this
  have hinbox := (h.thread t).inbox_cores
  rw [hcores] at hinbox
  cases hp : a.phase t <;> simp_all [Phase.settled, Phase.claim, Phase.inInbox]

/-- A thread in state Ready that no kernel call is acting on is ready. -/
theorem Sim.ready_of_settled (h : Sim cfg m a) (hborn : a.phase x ≠ .unborn)
    (hsettled : (a.phase x).settled = true) (hstate : m.kernel.state x = .ready) :
    a.phase x = .ready := by
  rw [(h.thread x).state] at hstate
  cases hphase : a.phase x <;> simp_all [Phase.state, Phase.settled]

theorem Sim.pinnedCore_eq_zero (h : Sim cfg m a) (hcores : cfg.cores = 1)
    (hborn : a.phase x ≠ .unborn) : m.kernel.pinnedCore x = 0 := by
  have hlt := (h.thread x).core_lt hborn
  omega

/-- Nobody posts to the inbox of the only core. -/
theorem Sim.inbox_eq_nil (h : Sim cfg m a) (hcores : cfg.cores = 1) :
    (m.kernel.schedulers 0).inbox = [] := by
  refine List.eq_nil_iff_forall_not_mem.mpr fun t ht => ?_
  have hin := (((h.inbox 0).2 t).mp ht).1
  have hlt := (h.thread t).inbox_cores hin
  omega

/-- A move of the scheduler fiber, which finds the inbox empty. -/
theorem Sim.step_coreMove (h : Sim cfg m a) (hcores : cfg.cores = 1)
    (hrun : m.kernel.isRunning = true) {pc : CorePc} (hmove : CoreMove cfg m 0 pc) (b : Bool) :
    m.step cfg (.core 0 (.next b)) = .ok (m.coreGoto m.kernel 0 pc) := by
  rw [Machine.step, if_pos ⟨hrun, cfg.cores_pos⟩]
  cases hmove with
  | pump hpc hlive => simp only [Machine.coreStep, hpc, if_pos hlive]
  | halt hpc hdone => simp only [Machine.coreStep, hpc, if_neg (Nat.not_lt_of_le hdone)]
  | reschedule hpc =>
    simp only [Machine.coreStep, hpc, h.rescheduleEntry hpc, ok_bind]
    rfl
  | drained hpc =>
    simp only [Machine.coreStep, hpc, Machine.drain, Scheduler.drainOne, h.inbox_eq_nil hcores,
      ok_bind]
    split <;> rfl

theorem Machine.coreGoto_core (m : Machine) (k : Kernel) (c : Nat) (pc : CorePc) :
    (m.coreGoto k c pc).core c = pc := by
  simp [Machine.coreGoto]

theorem Machine.coreGoto_coreGoto (m : Machine) (k k' : Kernel) (c : Nat) (pc pc' : CorePc) :
    (m.coreGoto k c pc).coreGoto k' c pc' = m.coreGoto k' c pc' := by
  simp [Machine.coreGoto]

/-- No thread executes while its core is in the scheduler fiber. -/
theorem Sim.suspended_of_scheduler (h : Sim cfg m a) (hcores : cfg.cores = 1)
    (hcore : m.core 0 ≠ .thread) (t : ThreadRef) : (m.fiber t).suspended = true := by
  refine (h.thread t).executing.resolve_left fun ⟨hc, hcur⟩ => ?_
  by_cases hun : a.phase t = .unborn
  · have hon := (h.current _ t hcur).2
    rw [hun, hc] at hon
    cases hon
  · rw [h.pinnedCore_eq_zero hcores hun] at hc
    exact hcore hc

theorem ThreadPc.claim_of_suspended {pc : ThreadPc} (h : pc.suspended = true) :
    pc.claim = none := by
  cases pc <;> first | rfl | cases h

/-! ## Thread states and the ready matrix -/

/-- The assertions at the head of `Scheduler::reschedule`, in `Scheduler::start`,
in `enqueue_thread` and in `push_back`. -/
def Panic.ofScheduling : Panic → Bool
  | reschedNoCurrent | reschedCurrentEnqueued | reschedCurrentReady | startNoIdleThread
  | startFirstNotReady | enqueuePriority | enqueueNotReady | pushBackEnqueued
  | pushBackNotReady => true
  | _ => false

/-- Thread states, ready matrix and current thread of a single core agree. -/
structure SelectionInvariant (cfg : Config) (k : Kernel) : Prop where
  /-- Exactly one thread is Running, the current one. -/
  running : ∃ t, k.current 0 = some t ∧ k.Registered cfg t ∧
    ∀ u, k.Registered cfg u → (k.state u = .running ↔ u = t)
  /-- The Ready threads are those linked once, in the queue of their priority. -/
  ready : ∀ n < k.threads, k.state (.user n) = .ready ↔
    ∀ p, (k.readyQueue 0 p).count (.user n) = if p = k.priority (.user n) then 1 else 0
  /-- Nothing else is in the matrix. -/
  matrix : ∀ p, ∀ t ∈ k.readyQueue 0 p,
    k.Registered cfg t ∧ t.isIdle = false ∧ k.state t = .ready

/-- In a settled state the constructed threads that are Ready are in the matrix. -/
theorem Sim.ready_iff_linked (h : Sim cfg m a) (hcores : cfg.cores = 1) {n : Nat}
    (hn : n < m.kernel.threads) (hset : (a.phase (.user n)).settled = true) :
    m.kernel.state (.user n) = .ready ↔
      ∀ p, (m.kernel.readyQueue 0 p).count (.user n) =
        if p = m.kernel.priority (.user n) then 1 else 0 := by
  have hborn : a.phase (.user n) ≠ .unborn := fun hu =>
    absurd ((h.born n).mp hu) (Nat.not_le.mpr hn)
  have hpin : m.kernel.pinnedCore (.user n) = 0 := by
    have := (h.thread (.user n)).core_lt hborn
    omega
  have hphase : m.kernel.state (.user n) = .ready ↔ a.phase (.user n) = .ready := by
    rw [(h.thread _).state]
    cases hp : a.phase (.user n) <;> simp_all [Phase.state, Phase.settled]
  have hmem : ∀ p, .user n ∈ a.queue (0, p) ↔
      a.phase (.user n) = .ready ∧ p = m.kernel.priority (.user n) := fun p => by
    rw [h.queued]
    simp [ThreadRef.isIdle, hpin, eq_comm]
  rw [hphase]
  simp only [h.readyQueue_eq]
  constructor
  · intro hr p
    split
    · next hp => exact List.count_eq_one_of_mem (h.ready.links.nodup _) ((hmem p).mpr ⟨hr, hp⟩)
    · next hp => exact List.count_eq_zero.mpr fun hin => hp ((hmem p).mp hin).2
  · intro hcount
    have hin := hcount (m.kernel.priority (.user n))
    rw [if_pos rfl] at hin
    exact ((hmem _).mp (List.count_pos_iff.mp (Nat.lt_of_lt_of_eq Nat.one_pos hin.symm))).1

/-- Once a thread has been selected, a single core is in order. -/
theorem Sim.selectionInvariant (h : Sim cfg m' a') (hcores : cfg.cores = 1) {next : ThreadRef}
    (hsel : Selected m a 0 m' a' next) (hsusp : ∀ t, (m.fiber t).suspended = true) :
    SelectionInvariant cfg m'.kernel := by
  have hset : ∀ t, (a'.phase t).settled = true := h.settled hcores fun t => by
    rw [hsel.fiber]
    exact ThreadPc.claim_of_suspended (hsusp t)
  refine ⟨⟨next, hsel.current, ?_, fun u hu => ⟨fun hrun => ?_, ?_⟩⟩,
    fun n hn => h.ready_iff_linked hcores hn (hset _), fun p t ht => ?_⟩
  · rw [h.registered_iff, hsel.running]
    simp
  · -- a Running thread is current on its core, and there is only one core
    have hphase : a'.phase u = .running := by
      rw [(h.thread u).state] at hrun
      cases hp : a'.phase u <;> simp_all [Phase.state]
    have hcur := (h.thread u).running hphase
    have hpin := (h.thread u).core_lt (h.registered_iff.mp hu)
    rw [hcores, Nat.lt_one_iff] at hpin
    rw [hpin, hsel.current] at hcur
    exact (Option.some.inj hcur).symm
  · rintro rfl
    rw [(h.thread u).state, hsel.running]
    rfl
  · rw [h.readyQueue_eq] at ht
    obtain ⟨hr, hidle, -, -⟩ := (h.queued 0 p t).mp ht
    refine ⟨?_, hidle, ?_⟩
    · rw [h.registered_iff, hr]
      simp
    · rw [(h.thread t).state, hr]
      rfl

/-- **The kernel state on a single core**: each time `start` or `reschedule` has
selected a thread, thread states, ready matrix and current thread agree; and no
step fails an assertion of the scheduler. -/
theorem selection_invariant (hcores : cfg.cores = 1) (hreach : Reachable cfg m) :
    (∀ b m', (m.core 0 = .boot ∨ m.core 0 = .switch) →
      m.step cfg (.core 0 (.next b)) = .ok m' → SelectionInvariant cfg m'.kernel) ∧
    ∀ l p, l.Valid cfg → m.step cfg l = .error (.panic p) → p.ofScheduling = false := by
  obtain ⟨a, ha⟩ := hreach.sim
  constructor
  · intro b m' hcore hstep
    obtain ⟨a', ht⟩ := ha.trans (l := .core 0 (.next b)) trivial hstep
    obtain ⟨next, hsel⟩ := ht.selected hcore
    refine (ht.sim ha).selectionInvariant hcores hsel (ha.suspended_of_scheduler hcores ?_)
    rcases hcore with hc | hc <;> simp [hc]
  · intro l p hvalid hstep
    have hfail := ha.mayFail hvalid hstep
    cases p <;> first | rfl | cases hfail

/-- Two threads of one priority on one core; the first yields. -/
theorem selection_invariant_yield :
    ∃ m m' : Machine, m.core 0 = .switch ∧ m.step oneCore (.core 0 (.next false)) = .ok m' ∧
      SelectionInvariant oneCore m'.kernel := by
  have hrun : RunsTo oneCore (fun _ l => l.Valid oneCore)
      (fun m => m.core 0 = .switch ∧ (m.step oneCore (.core 0 (.next false))).isOk = true)
      ([.construct 5 1#32, .construct 5 1#32, .start] ++ steps 0 1 ++ [.core 0 .yield] ++
        steps 0 3) := by decide +kernel
  obtain ⟨m, hreach, hcore, hok⟩ := hrun.reach
  cases hstep : m.step oneCore (.core 0 (.next false)) with
  | error e => rw [hstep] at hok; cases hok
  | ok m' =>
    exact ⟨m, m', hcore, hstep,
      (selection_invariant rfl hreach).1 false m' (.inr hcore) hstep⟩

/-! ## Wait queues, wait nodes and pools -/

/-- The core is not inside a kernel call: it has not started, it has ended, or
its current thread is in its own code. -/
def Machine.BetweenCalls (m : Machine) : Prop :=
  m.core 0 = .boot ∨ m.core 0 = .halted ∨
    m.core 0 = .thread ∧ ∀ t, m.kernel.current 0 = some t → m.fiber t = .user ∨ m.fiber t = .idle

/-- Wait queues, wait nodes, pools and thread states agree. -/
structure WaitStructure (cfg : Config) (m : Machine) : Prop where
  /-- Every wait queue is a doubly linked list without repetitions. -/
  lists : m.kernel.waiters.Rep (m.kernel.waitQueue cfg)
  /-- A node is linked on `w` when it is active and for `w`. -/
  linked : ∀ w n, n ∈ m.kernel.waitQueue cfg w ↔
    (m.kernel.node n).active = true ∧ (m.kernel.node n).waitable = some w
  /-- A Blocked thread waits: it owns one active node for each of its waitables. -/
  blocked : ∀ t, m.kernel.state t = .blocked → m.kernel.done t = false ∧
    ∃ ws p, m.fiber t = .waitReturn ws p ∧
      (List.range cfg.maxWaitNodes).filter (fun i => (m.kernel.node ⟨t, i⟩).active) =
        List.range ws.length ∧
      ∀ i w, ws[i]? = some w → (m.kernel.node ⟨t, i⟩).index = i ∧
        (m.kernel.node ⟨t, i⟩).group = some t ∧ ⟨t, i⟩ ∈ m.kernel.waitQueue cfg w
  /-- Any other thread owns none, and its pool is full. -/
  others : ∀ t, m.kernel.state t ≠ .blocked → (∀ i, (m.kernel.node ⟨t, i⟩).active = false) ∧
    (m.kernel.tcbs t).waitNodes.freeMask = allNodesFree cfg.maxWaitNodes

/-- Between kernel calls every thread is at a point where it can be off its core. -/
theorem Sim.suspended_between (h : Sim cfg m a) (hcores : cfg.cores = 1)
    (hbetween : m.BetweenCalls) (t : ThreadRef) : (m.fiber t).suspended = true := by
  rcases hbetween with hc | hc | ⟨hc, hcur⟩
  · exact h.suspended_of_scheduler hcores (by simp [hc]) t
  · exact h.suspended_of_scheduler hcores (by simp [hc]) t
  · rcases (h.thread t).executing with ⟨-, he⟩ | hsusp
    · by_cases hun : a.phase t = .unborn
      · have hadm := (h.thread t).admits
        rw [hun] at hadm
        cases hpc : m.fiber t <;> simp_all [Phase.admits, ThreadPc.suspended]
      · have hpin := (h.thread t).core_lt hun
        rw [hcores, Nat.lt_one_iff] at hpin
        rw [hpin] at he
        rcases hcur t he with hpc | hpc <;> rw [hpc] <;> rfl
    · exact hsusp

/-- The nodes of a thread that waits on `ws`. -/
theorem active_slots {ws : List WaitableRef} {N : Nat} (hN : ws.length ≤ N) (t : ThreadRef) :
    (List.range N).filter (fun i => (nodeFor t ws i).active) = List.range ws.length := by
  obtain ⟨d, rfl⟩ := Nat.exists_eq_add_of_le hN
  rw [List.range_add, List.filter_append, List.filter_eq_self.mpr, List.filter_eq_nil_iff.mpr,
    List.append_nil]
  · intro i hi
    obtain ⟨j, -, rfl⟩ := List.mem_map.mp hi
    simp [nodeFor]
  · intro i hi
    simpa [nodeFor] using hi

/-- **The wait structures on a single core**: between kernel calls wait queues,
wait nodes, pools and thread states agree, and a wait never finds its pool
exhausted. -/
theorem wait_structure_invariant (hcores : cfg.cores = 1) (hreach : Reachable cfg m) :
    (m.BetweenCalls → WaitStructure cfg m) ∧
    ∀ l, l.Valid cfg → m.step cfg l ≠ .error (.panic .prepareNoNode) := by
  obtain ⟨a, h⟩ := hreach.sim
  refine ⟨fun hbetween => ?_, fun l hvalid hstep => absurd (h.mayFail hvalid hstep) nofun⟩
  have hsusp := h.suspended_between hcores hbetween
  have hset := h.settled hcores fun t => ThreadPc.claim_of_suspended (hsusp t)
  refine ⟨?_, fun w n => ?_, fun t hb => ?_, fun t hnb => ?_⟩
  · rw [show m.kernel.waitQueue cfg = a.waiters from funext h.waitQueue_eq]
    exact h.waiting.links
  · rw [h.waitQueue_eq, h.waiting.mem, h.waiting.node_eq]
    simp only [nodeFor, decide_eq_true_eq]
    exact ⟨fun hw => ⟨(List.getElem?_eq_some_iff.mp hw).1, hw⟩, And.right⟩
  · rw [(h.thread t).state] at hb
    obtain ⟨ws, hp⟩ : ∃ ws, a.phase t = .waiting ws := by
      have := hset t
      cases hp : a.phase t <;> simp_all [Phase.state, Phase.settled]
    have hadm := (h.thread t).admits
    have hbound := h.waiting.bound t
    simp only [hp, Phase.held] at hbound
    refine ⟨(h.thread t).waiting_done (by rw [hp]; rfl), ws, ?_⟩
    rw [hp] at hadm
    obtain ⟨p, hpc⟩ : ∃ p, m.fiber t = .waitReturn ws p := by
      have := hsusp t
      cases hpc : m.fiber t <;> simp_all [Phase.admits, ThreadPc.blockedOn, ThreadPc.suspended]
    refine ⟨p, hpc, ?_, fun i w hw => ?_⟩
    · simp only [h.waiting.node_eq, hp, Phase.held]
      exact active_slots hbound t
    · have hi := (List.getElem?_eq_some_iff.mp hw).1
      rw [h.waitQueue_eq, h.waiting.mem, h.waiting.node_eq]
      exact ⟨by simp [nodeFor, hp, Phase.held, hi], by simp [nodeFor, hp, Phase.held, hi],
        by rw [hp]; exact hw⟩
  · rw [(h.thread t).state] at hnb
    have hheld : (a.phase t).held = [] := by
      cases hp : a.phase t <;> simp_all [Phase.state, Phase.held]
    refine ⟨fun i => ?_, ?_⟩
    · simp [h.waiting.node_eq, nodeFor, hheld]
    · rw [h.waiting.pools, hheld]
      rfl

/-- A thread waits on two objects while the other runs. -/
theorem wait_structure_invariant_two :
    ∃ m : Machine, m.BetweenCalls ∧ m.kernel.state (.user 0) = .blocked ∧
      WaitStructure oneCore m := by
  have hrun : RunsTo oneCore (fun _ l => l.Valid oneCore)
      (fun m => (m.core 0 = .thread ∧ m.kernel.current 0 = some (.user 1) ∧
        m.fiber (.user 1) = .user) ∧ m.kernel.state (.user 0) = .blocked)
      ([.construct 5 1#32, .construct 5 1#32, .start] ++ steps 0 1 ++
        [.core 0 (.waitForAny [3, 1])] ++ steps 0 5) := by decide +kernel
  obtain ⟨m, hreach, ⟨hcore, hcur, hpc⟩, hb⟩ := hrun.reach
  have hbetween : m.BetweenCalls := .inr (.inr ⟨hcore, fun t ht => by
    rw [hcur] at ht
    rw [← Option.some.inj ht]
    exact .inl hpc⟩)
  exact ⟨m, hbetween, hb, (wait_structure_invariant rfl hreach).1 hbetween⟩

end Cortos
