import Cortos.Properties.YieldTurns

/-!
# The dispatches of yielding threads

`main` constructs threads whose entry functions yield some times and then return, and calls
`kernel::start` on one core. They are dispatched round by round within their priorities, and
in the end all are Terminated (`yields_round_robin`).

The loop of the port ends when the count of contexts, a 32-bit counter, is down to the idle
context. That count is right only if it has not wrapped (`AtBoot.wrapped_count_halts`).
-/

namespace Cortos

open Lib

variable {cfg : Config} {m : Machine} {a : Life} {left : Nat → Nat}
  {Q : Nat → List (Nat × Nat)} {N n p i k : Nat}

/-! ## The application -/

/-- A thread whose entry function yields `yields` times and then returns. -/
structure Yielder where
  priority : UInt8
  affinity : BitVec 32
  yields : Nat

/-- `main`: the threads are constructed one after the other, then `kernel::start`. -/
def Machine.boot (cfg : Config) (ts : List Yielder) : Except Fault Machine := do
  let m ← ts.foldlM (fun m y => m.step cfg (.construct y.priority y.affinity))
    (Machine.initial cfg)
  m.step cfg .start

/-- The jobs of priority `p`, in the order of registration. -/
def jobs (ts : List Yielder) (p : Nat) : List (Nat × Nat) :=
  (ts.zipIdx.filter fun y => y.1.priority.toNat = p).map fun y => (y.2, y.1.yields)

/-- How many yields thread `i` has left when the core starts. -/
def yieldsOf (ts : List Yielder) (i : Nat) : Nat :=
  match ts[i]? with
  | some y => y.yields
  | none => 0

/-- A thread that can be constructed: its priority exists and it may run on core 0. -/
def Yielder.Valid (cfg : Config) (y : Yielder) : Prop :=
  y.priority.toNat < cfg.maxPriorities ∧ Kernel.allows y.affinity 0 = true

/-! ## Before the core runs -/

/-- The threads `ts` have been constructed, on the only core. -/
structure Registered (cfg : Config) (m : Machine) (a : Life) (ts : List Yielder) : Prop where
  sim : Sim cfg m a
  cores : cfg.cores = 1
  running : m.kernel.isRunning = false
  waiters : ∀ w, a.waiters w = []
  alive : Alive m.fiber a.phase m.kernel.threads
  ids : ∀ i < m.kernel.threads, (m.kernel.tcbs (.user i)).id ≠ idleThreadId
  core : m.core 0 = .boot
  counts : Counts m ts.length ts.length ts.length
  generator : m.kernel.threadIdGenerator = u32 (ts.length + 1)
  pinned : (m.kernel.schedulers 0).pinnedThreadCounter = ts.length
  queue : ∀ p, a.queue (0, p) = (jobs ts p).map fun j => .user j.1

theorem jobs_append (ts : List Yielder) (y : Yielder) (p : Nat) :
    jobs (ts ++ [y]) p =
      if y.priority.toNat = p then jobs ts p ++ [(ts.length, y.yields)] else jobs ts p := by
  rw [jobs, List.zipIdx_append, List.filter_append, List.map_append]
  split
  · next hp => simp [jobs, hp]
  · next hp => simp [jobs, hp]

theorem Registered.initial (cfg : Config) (hcores : cfg.cores = 1) :
    Registered cfg (Machine.initial cfg) (Life.initial cfg) [] where
  sim := .initial cfg
  cores := hcores
  running := rfl
  waiters _ := rfl
  alive i hi := absurd hi (Nat.not_lt_zero i)
  ids i hi := absurd hi (Nat.not_lt_zero i)
  core := rfl
  counts := ⟨rfl, rfl, hcores⟩
  generator := rfl
  pinned := rfl
  queue _ := rfl

/-- A thread that core 0 may run is pinned to it. -/
theorem Kernel.construct_oneCore {k : Kernel} {priority : UInt8} {affinity : BitVec 32}
    (hcores : cfg.cores = 1) (hallows : Kernel.allows affinity 0 = true)
    (hpinned : (k.schedulers 0).pinnedThreadCounter < 2 ^ 32 - 1) :
    k.construct cfg priority affinity = .ok (k.constructed cfg priority affinity 0) := by
  have haffinity : ((k.addThread cfg priority affinity).tcbs (.user k.threads)).affinity =
      affinity := by
    simp [Kernel.addThread, Kernel.newTcb]
  have hsched : ((k.addThread cfg priority affinity).schedulers 0).pinnedThreadCounter =
      (k.schedulers 0).pinnedThreadCounter := rfl
  rw [Kernel.construct, Kernel.pinThreadToCore, hcores, haffinity, List.range_one,
    List.foldl_cons, List.foldl_nil, Kernel.pinCandidate, hsched, hallows,
    decide_eq_true hpinned]
  rfl

/-- `main` has constructed a thread on core 0. -/
def Kernel.registered (cfg : Config) (k : Kernel) (y : Yielder) : Kernel :=
  (k.constructed cfg y.priority y.affinity 0).makeReady 0 (.user k.threads)

theorem Kernel.registered_id (k : Kernel) (y : Yielder) (t : ThreadRef) :
    ((k.registered cfg y).tcbs t).id =
      if t = .user k.threads then k.threadIdGenerator else (k.tcbs t).id := by
  have hid : ((k.registered cfg y).tcbs t).id =
      ((k.constructed cfg y.priority y.affinity 0).tcbs t).id :=
    congrArg (fun f => f.2.1) (Kernel.fixed_makeReady _ 0 (.user k.threads) t)
  rw [hid, Kernel.constructed_tcbs]
  by_cases ht : t = .user k.threads
  · rw [if_pos ht, ht, Function.update_self]
    rfl
  · rw [if_neg ht, Function.update_of_ne ht]

theorem Kernel.registered_pinned (k : Kernel) (y : Yielder) :
    ((k.registered cfg y).schedulers 0).pinnedThreadCounter =
      u32 ((k.schedulers 0).pinnedThreadCounter + 1) := by
  obtain ⟨bits, hb⟩ := (k.constructed cfg y.priority y.affinity 0).makeReady_schedulers 0 0
    (.user k.threads)
  rw [Kernel.registered, hb]
  simp [Kernel.constructed, Scheduler.pinThread, Kernel.modifySched, Kernel.modifyTcb,
    Kernel.addThread]

/-- One more thread is constructed. -/
theorem Registered.construct {ts : List Yielder} (h : Registered cfg m a ts) {y : Yielder}
    (hy : y.Valid cfg) (hfit : ts.length + 1 < 2 ^ 32) :
    ∃ m₁ a₁, m.step cfg (.construct y.priority y.affinity) = .ok m₁ ∧
      Registered cfg m₁ a₁ (ts ++ [y]) := by
  obtain ⟨hprio, hallows⟩ := hy
  have hd : 0 < cfg.cores := cfg.cores_pos
  have hunborn : a.phase (.user m.kernel.threads) = .unborn := (h.sim.born _).mpr (Nat.le_refl _)
  have hpriority : (m.kernel.constructed cfg y.priority y.affinity 0).priority
      (.user m.kernel.threads) = y.priority.toNat := by
    rw [Kernel.priority, Kernel.constructed_tcbs, Function.update_self]
    rfl
  have hconstruct : m.kernel.construct cfg y.priority y.affinity =
      .ok (m.kernel.constructed cfg y.priority y.affinity 0) :=
    Kernel.construct_oneCore h.cores hallows (by rw [h.pinned]; omega)
  have hlength : (ts ++ [y]).length = ts.length + 1 := List.length_append
  have hnext : u32 (ts.length + 1) = ts.length + 1 := Nat.mod_eq_of_lt hfit
  have hnew : ∀ i < m.kernel.threads + 1, i ≠ m.kernel.threads →
      i < m.kernel.threads ∧ ThreadRef.user i ≠ .user m.kernel.threads := fun i hi hne =>
    ⟨Nat.lt_of_le_of_ne (Nat.le_of_lt_succ hi) hne, fun he => hne (ThreadRef.user.inj he)⟩
  refine ⟨{ m with kernel := m.kernel.registered cfg y },
    a.enqueue 0 y.priority.toNat (.user m.kernel.threads), ?_, ?_, h.cores, h.running, h.waiters,
    fun i hi => ?_, fun i hi => ?_, h.core, ⟨?_, ?_, ?_⟩, ?_, ?_, fun p => ?_⟩
  · rw [Machine.step, if_neg (by simp [h.running]),
      h.sim.constructBeforeStart h.running hprio hd hconstruct]
    rfl
  · rw [← hpriority]
    exact (h.sim.constructBoot hprio hd rfl rfl).2
  · by_cases hi' : i = m.kernel.threads
    · rw [hi']
      exact .inr ⟨.inl (Function.update_self ..), h.sim.unborn_fiber hunborn⟩
    · obtain ⟨hlt, hne⟩ := hnew i hi hi'
      have hold := h.alive i hlt
      rwa [← Function.update_of_ne hne Phase.ready a.phase] at hold
  · show ((m.kernel.registered cfg y).tcbs (.user i)).id ≠ _
    rw [Kernel.registered_id]
    by_cases hi' : i = m.kernel.threads
    · rw [if_pos (congrArg _ hi'), h.generator, hnext]
      exact Nat.succ_ne_zero _
    · obtain ⟨hlt, hne⟩ := hnew i hi hi'
      rw [if_neg hne]
      exact h.ids i hlt
  · rw [hlength]
    exact congrArg (· + 1) h.counts.constructed
  · rw [hlength, ← hnext, ← h.counts.threads]
    rfl
  · show u32 (m.kernel.activeContexts + 1) = _
    rw [hlength, h.counts.contexts, hnext]
  · show u32 (m.kernel.threadIdGenerator + 1) = _
    rw [hlength, h.generator, hnext]
  · show ((m.kernel.registered cfg y).schedulers 0).pinnedThreadCounter = _
    rw [Kernel.registered_pinned, h.pinned, hnext, hlength]
  · show Function.update a.queue (0, y.priority.toNat) _ (0, p) = _
    rw [jobs_append]
    split
    · next hp => rw [hp, Function.update_self, h.queue, h.counts.constructed, List.map_append]; rfl
    · next hp => rw [Function.update_of_ne (fun he => hp (Prod.mk.inj he).2.symm), h.queue]

/-- **`main` constructs the threads**, if there are less than `2 ^ 32`. -/
theorem Registered.constructs (hcores : cfg.cores = 1) (ts : List Yielder)
    (hvalid : ∀ y ∈ ts, y.Valid cfg) (hfit : ts.length < 2 ^ 32) :
    ∃ m a, ts.foldlM (fun m y => m.step cfg (.construct y.priority y.affinity))
      (Machine.initial cfg) = .ok m ∧ Registered cfg m a ts := by
  induction ts using List.reverseRecOn with
  | nil => exact ⟨_, _, rfl, .initial cfg hcores⟩
  | append_singleton ts y ih =>
    rw [List.length_append, List.length_singleton] at hfit
    obtain ⟨m, a, hfold, h⟩ := ih (fun z hz => hvalid z (List.mem_append_left _ hz)) (by omega)
    obtain ⟨m₁, a₁, hstep, h₁⟩ := h.construct (hvalid y (by simp)) hfit
    refine ⟨m₁, a₁, ?_, h₁⟩
    rw [List.foldlM_append, hfold, ok_bind, List.foldlM_cons, hstep]
    rfl

/-- `kernel::start`. -/
theorem Registered.start {ts : List Yielder} (h : Registered cfg m a ts) (hpos : 0 < ts.length) :
    ∃ m₁, m.step cfg .start = .ok m₁ ∧ AtBoot cfg m₁ a (jobs ts) (yieldsOf ts) ∧
      Counts m₁ ts.length ts.length ts.length := by
  have hpos' : 0 < m.kernel.activeThreads := by rwa [h.counts.threads]
  refine ⟨_, ?_, ⟨⟨(Trans.start h.running hpos').sim h.sim, h.cores, rfl, h.waiters, h.alive,
    h.ids⟩, h.core, h.queue, fun p j hj => ?_⟩, h.counts.constructed,
    h.counts.threads, h.counts.contexts⟩
  · rw [Machine.step, if_neg (by simp [h.running]), Kernel.start, decide_eq_true hpos']
    rfl
  · obtain ⟨⟨y, n⟩, hy, rfl⟩ := List.mem_map.mp hj
    have hget := List.mem_zipIdx_iff_getElem?.mp (List.mem_of_mem_filter hy)
    simp only at hget
    simp [yieldsOf, hget]

/-! ## The trace -/

/-- The most yields of a thread. -/
def mostYields (ts : List Yielder) : Nat :=
  (ts.map Yielder.yields).foldr max 0

theorem le_mostYields {ts : List Yielder} {y : Yielder} (hy : y ∈ ts) :
    y.yields ≤ mostYields ts := by
  induction ts with
  | nil => cases hy
  | cons z ts ih =>
    rcases List.mem_cons.mp hy with rfl | hy
    · exact Nat.le_max_left _ _
    · exact Nat.le_trans (ih hy) (Nat.le_max_right _ _)

/-- The dispatches: for each priority, and for each round `k`, the threads of that priority
that yield at least `k` times, in the order of registration. -/
def dispatchOrder (cfg : Config) (ts : List Yielder) : List ThreadRef :=
  (List.range cfg.maxPriorities).flatMap fun p =>
    (List.range (mostYields ts + 1)).flatMap fun k =>
      (ts.zipIdx.filter fun y => y.1.priority.toNat = p ∧ k ≤ y.1.yields).map fun y => .user y.2

/-- Every thread is dispatched in round 0. -/
theorem mem_dispatchOrder {ts : List Yielder} {y : Yielder} (hget : ts[i]? = some y)
    (hprio : y.priority.toNat < cfg.maxPriorities) : .user i ∈ dispatchOrder cfg ts := by
  refine List.mem_flatMap.mpr ⟨y.priority.toNat, List.mem_range.mpr hprio, ?_⟩
  refine List.mem_flatMap.mpr ⟨0, List.mem_range.mpr (Nat.succ_pos _), ?_⟩
  refine List.mem_map.mpr ⟨(y, i), List.mem_filter.mpr ⟨?_, by simp⟩, rfl⟩
  exact List.mem_zipIdx_iff_getElem?.mpr hget

/-- The rounds of one priority. -/
theorem map_rounds_jobs (ts : List Yielder) (p R : Nat) :
    (rounds (jobs ts p) R).map ThreadRef.user =
      (List.range R).flatMap fun k =>
        (ts.zipIdx.filter fun y => y.1.priority.toNat = p ∧ k ≤ y.1.yields).map
          fun y => .user y.2 := by
  rw [rounds, List.map_flatMap]
  refine List.flatMap_congr fun k _ => ?_
  rw [jobs, List.filter_map, List.map_map, List.map_map, List.filter_filter]
  congr 1
  refine List.filter_congr fun y _ => ?_
  simp [Bool.and_comm]

/-- Each thread is a job of its priority. -/
theorem sum_length_jobs {ts : List Yielder} (hvalid : ∀ y ∈ ts, y.Valid cfg) :
    ((List.range cfg.maxPriorities).map fun p => (jobs ts p).length).sum = ts.length := by
  have hsum := sum_length_filter (l := ts.zipIdx) (f := fun y => y.1.priority.toNat)
    fun y hy => (hvalid y.1 (List.fst_mem_of_mem_zipIdx hy)).1
  simpa [jobs] using hsum

/-- The rules of `ServedByPriority` give this order. -/
theorem served_jobs {ts : List Yielder} (hvalid : ∀ y ∈ ts, y.Valid cfg) :
    ∃ xs, ServedByPriority (jobs ts) ts.length xs ∧ xs.map .user = dispatchOrder cfg ts := by
  have hjob : ∀ {p j}, j ∈ jobs ts p → ∃ y ∈ ts, y.priority.toNat = p ∧ j.2 = y.yields := by
    intro p j hj
    obtain ⟨y, hy, rfl⟩ := List.mem_map.mp hj
    obtain ⟨hy, hp⟩ := List.mem_filter.mp hy
    exact ⟨y.1, List.fst_mem_of_mem_zipIdx hy, of_decide_eq_true hp, rfl⟩
  have hserved : ServedByPriority (jobs ts) _ ((List.range' 0 cfg.maxPriorities).flatMap
      fun p => rounds (jobs ts p) (mostYields ts + 1)) :=
    .levels (fun p' hp => absurd hp (Nat.not_lt_zero p')) (fun p' hp => ?_)
      fun p' _ => .rounds fun j hj => ?_
  · rw [← List.range_eq_range', sum_length_jobs hvalid] at hserved
    refine ⟨_, hserved, ?_⟩
    rw [List.map_flatMap]
    exact List.flatMap_congr fun p _ => map_rounds_jobs ts p _
  · refine List.eq_nil_iff_forall_not_mem.mpr fun j hj => ?_
    obtain ⟨y, hy, hp', -⟩ := hjob hj
    have := (hvalid y hy).1
    omega
  · obtain ⟨y, hy, -, hyields⟩ := hjob hj
    rw [hyields]
    exact Nat.lt_succ_of_le (le_mostYields hy)

/-- **Yielding threads are dispatched round robin within their priorities.** One core runs
at least one thread and less than `2 ^ 32 - 1`. -/
theorem yields_round_robin (hcores : cfg.cores = 1) (ts : List Yielder)
    (hvalid : ∀ y ∈ ts, y.Valid cfg) (hpos : 0 < ts.length) (hfit : ts.length + 1 < 2 ^ 32) :
    ∃ m m', Machine.boot cfg ts = .ok m ∧
      Dispatches cfg m (yieldsOf ts) (dispatchOrder cfg ts) m' ∧ AllDone m' ts.length := by
  obtain ⟨m₀, a, hfold, hreg⟩ := Registered.constructs hcores ts hvalid (by omega)
  obtain ⟨m, hstart, hboot, hcounts⟩ := hreg.start hpos
  obtain ⟨xs, hserved, hxs⟩ := served_jobs hvalid
  obtain ⟨m', hrun, hdone⟩ := Selecting.served hserved hfit (.boot hboot hpos) hcounts
  refine ⟨m, m', ?_, hxs ▸ hrun, hdone⟩
  rw [Machine.boot, hfold, ok_bind, hstart]

/-- If the count of contexts has wrapped, the pump loop ends at the first yield. -/
theorem AtBoot.wrapped_count_halts (h : AtBoot cfg m a Q left) {q : List (Nat × Nat)}
    (hfirst : ∀ p' < p, Q p' = []) (hQ : Q p = (i, k + 1) :: q) (hcounts : Counts m N n n)
    (hwrap : u32 (n + 1) ≤ 1) :
    ∃ m', Dispatches cfg m left [.user i] m' ∧ m'.core 0 = .halted ∧
      m'.kernel.state (.user i) = .running := by
  obtain ⟨m₁, a₁, hsel, hon, hcounts₁⟩ := h.select hfirst hQ hcounts
  obtain ⟨m₂, left₂, hyield, hpump, hcounts₂⟩ := hon.yield hcounts₁
  have hdone : m₂.kernel.activeContexts ≤ cfg.cores := by rwa [hcounts₂.contexts, h.cores]
  refine ⟨_, hsel _ _ (hyield _ _ (hpump.halt hpump.core hdone)),
    m₂.coreGoto_core m₂.kernel 0 .halted, ?_⟩
  refine (hpump.sim.thread (.user i)).state.trans ?_
  rw [hon.phase]
  rfl

/-- The theorem at three threads of two priorities. -/
theorem three_yielders : ∃ m m',
    Machine.boot oneCore [⟨1, 1#32, 1⟩, ⟨0, 1#32, 1⟩, ⟨1, 1#32, 0⟩] = .ok m ∧
      Dispatches oneCore m (yieldsOf [⟨1, 1#32, 1⟩, ⟨0, 1#32, 1⟩, ⟨1, 1#32, 0⟩])
        [.user 1, .user 1, .user 0, .user 2, .user 0] m' ∧ AllDone m' 3 :=
  yields_round_robin rfl [⟨1, 1#32, 1⟩, ⟨0, 1#32, 1⟩, ⟨1, 1#32, 0⟩]
    (by simp [Yielder.Valid, oneCore, defaultConfig]; decide) (by decide) (by decide)

/-- `2 ^ 32 - 1` threads that yield once. With the idle thread there are `2 ^ 32` contexts. -/
def wrappingYielders : List Yielder :=
  List.replicate (2 ^ 32 - 1) ⟨0, 1#32, 1⟩

theorem length_wrappingYielders : wrappingYielders.length + 1 = 2 ^ 32 := by
  rw [wrappingYielders, List.length_replicate]
  decide

theorem wrappingYielders_valid : ∀ y ∈ wrappingYielders, y.Valid oneCore := by
  intro y hy
  obtain rfl := List.eq_of_mem_replicate hy
  exact ⟨by decide, by decide⟩

/-- All of them are of priority 0. -/
theorem jobs_wrappingYielders : ∃ q, jobs wrappingYielders 0 = (0, 1) :: q := by
  obtain ⟨n, hts⟩ : ∃ n, wrappingYielders = List.replicate (n + 1) ⟨0, 1#32, 1⟩ :=
    ⟨2 ^ 32 - 2, congrArg (List.replicate · _) (by decide)⟩
  rw [jobs, hts, List.replicate_succ, List.zipIdx_cons, List.filter_cons_of_pos (by decide)]
  exact ⟨_, rfl⟩

/-- With no thread `kernel::start` fails its assertion. With `2 ^ 32 - 1` threads the count
of contexts is 0, so the pump loop ends when the first thread yields, before it is Terminated
and before the second thread has been dispatched. -/
theorem yield_trace_cut_short :
    Machine.boot oneCore [] = .error (.panic .startNoThreads) ∧
      ∃ m m', Machine.boot oneCore wrappingYielders = .ok m ∧
        Dispatches oneCore m (yieldsOf wrappingYielders) [.user 0] m' ∧
        m'.kernel.state (.user 0) = .running ∧ .user 1 ∈ dispatchOrder oneCore wrappingYielders := by
  refine ⟨rfl, ?_⟩
  have hlength := length_wrappingYielders
  obtain ⟨m₀, a, hfold, hreg⟩ :=
    Registered.constructs rfl wrappingYielders wrappingYielders_valid (by omega)
  obtain ⟨m, hstart, hboot, hcounts⟩ := hreg.start (by omega)
  obtain ⟨q, hq⟩ := jobs_wrappingYielders
  have hwrap : u32 (wrappingYielders.length + 1) ≤ 1 := by
    rw [hlength, u32, Nat.mod_self]
    exact Nat.zero_le 1
  obtain ⟨m', hrun, -, hstate⟩ := hboot.wrapped_count_halts (p := 0) (k := 0)
    (fun p' hp => absurd hp (Nat.not_lt_zero p')) hq hcounts hwrap
  refine ⟨m, m', ?_, hrun, hstate, ?_⟩
  · rw [Machine.boot, hfold, ok_bind, hstart]
  · have hget : wrappingYielders[1]? = some ⟨0, 1#32, 1⟩ := by
      rw [wrappingYielders, List.getElem?_replicate_of_lt (by decide)]
    exact mem_dispatchOrder hget (by decide)

end Cortos
