import Cortos.Port.Shutdown
import Cortos.Properties.Pinning
import Cortos.Properties.YieldTurns

/-!
# A count of contexts that leaks

An exiting thread that makes a more urgent joiner ready is never resumed, so it does not call
`cortos_port_thread_exit`. A thread that constructs less urgent threads and joins them, one
after the other, therefore leaves one context behind in every round, although there are never
more than two threads that have not terminated. With thread number `2 ^ 32 - 2` the 32-bit
counter is 0, and when the joiner then yields, its core reads that only the idle context is
left.

- `Round` is a point of one round: where the joiner and the thread it joins are, and in which
  phases. One lemma per step; `Resting.round` is the whole round.
- `Busy.port`: the port takes the same steps as long as the core is busy.
- `premature_shutdown`: the run, by induction on the rounds.
-/

namespace Cortos

open Lib

variable {cfg : Config} {m m' : Machine} {a a' : Life} {c : Nat} {t x : ThreadRef}
  {s : PortState}

/-! ## Threads that have not terminated -/

/-- The threads that have not terminated. -/
def Machine.unterminated (m : Machine) : Finset Nat :=
  (Finset.range m.kernel.threads).filter fun i => m.kernel.state (.user i) ≠ .terminated

/-- A thread is constructed when all others but thread 0 have terminated. -/
def ConstructsAlone (m : Machine) (l : Label) : Prop :=
  l.constructs = true →
    ∀ i < m.kernel.threads, 0 < i → m.kernel.state (.user i) = .terminated

instance (m : Machine) (l : Label) : Decidable (ConstructsAlone m l) :=
  inferInstanceAs (Decidable (_ → _))

/-- Only the first thread and the last one may be running. -/
def TwoLive (m : Machine) : Prop :=
  ∀ i < m.kernel.threads, m.kernel.state (.user i) ≠ .terminated →
    i = 0 ∨ i + 1 = m.kernel.threads

theorem TwoLive.card_le (h : TwoLive m) : m.unterminated.card ≤ 2 := by
  have hsub : m.unterminated ⊆ {0, m.kernel.threads - 1} := by
    intro i hi
    obtain ⟨hlt, hstate⟩ := Finset.mem_filter.mp hi
    have hlt := Finset.mem_range.mp hlt
    rw [Finset.mem_insert, Finset.mem_singleton]
    rcases h i hlt hstate with rfl | hlast
    · exact .inl rfl
    · exact .inr (by omega)
  exact (Finset.card_le_card hsub).trans Finset.card_le_two

/-- **Step lemma** of `TwoLive`. -/
theorem TwoLive.step (h : TwoLive m) (hs : Sim cfg m a) {l : Label} (ht : Trans cfg m a l m' a')
    (halone : ConstructsAlone m l) : TwoLive m' := by
  have hs' := ht.sim hs
  intro i hi hlive
  rw [Ne, hs'.dead_iff] at hlive
  cases ht.turnover hs with
  | construct hthreads hnew hdead =>
    have hcons : l.constructs = true := by
      cases ht.contexts with
      | init hl => exact hl
      | exit _ _ _ hsame | stay hsame => omega
    rw [hthreads] at hi ⊢
    rcases Nat.lt_succ_iff_lt_or_eq.mp hi with hi | rfl
    · refine .inl (Nat.eq_zero_of_not_pos fun hpos => hlive ?_)
      have hne : ThreadRef.user i ≠ .user m.kernel.threads := by
        rintro heq
        cases heq
        exact Nat.lt_irrefl _ hi
      exact (hdead _ hne).mpr ((hs.dead_iff _).mp (halone hcons i hi hpos))
    · exact .inr rfl
  | ret hl hcur hpc hrun hthreads hdead =>
    rw [hthreads] at hi ⊢
    refine h i hi ?_
    rw [Ne, hs.dead_iff]
    exact fun hd => hlive ((hdead _).mpr (.inl hd))
  | stay hthreads hdead =>
    rw [hthreads] at hi ⊢
    refine h i hi ?_
    rw [Ne, hs.dead_iff]
    exact fun hd => hlive ((hdead _).mpr hd)

/-! ## A core that is always busy -/

/-- The steps of the runs in which the only core does not come to its idle thread and does not
find its pump loop at the end. -/
def Busy (cfg : Config) (m : Machine) (l : Label) : Prop :=
  (l.Valid cfg ∧ ConstructsAlone m l) ∧ m.idling 0 = false ∧
    (m.core 0 = .pump → cfg.cores < m.kernel.activeContexts)

instance (m : Machine) (l : Label) : Decidable (Busy cfg m l) :=
  inferInstanceAs (Decidable (_ ∧ _ ∧ _))

/-- The only core posts to no inbox. -/
theorem Sim.posting_eq_none (h : Sim cfg m a) (hcores : cfg.cores = 1) : m.posting 0 = none := by
  have hclaimed : ∀ {t x κ}, m.core 0 = .thread → m.kernel.current 0 = some t →
      (m.fiber t).claim = some (x, κ) → κ ≠ .tearDown → m.kernel.pinnedCore x = 0 := by
    intro t x κ hcore hcur hclaim hκ
    obtain ⟨-, -, hphase⟩ := h.claimed hcore hcur hclaim hκ
    refine h.pinnedCore_eq_zero hcores ?_
    rcases hphase with ⟨hp, -⟩ | ⟨hp, -⟩ <;> simp [hp]
  unfold Machine.posting
  split
  · next t hcore hcur =>
    split
    · next x hpc =>
      exact if_pos (hclaimed hcore hcur (by rw [hpc]; rfl) (by simp : Claim.makeReady ≠ .tearDown))
    · next s x hpc =>
      exact if_pos (hclaimed hcore hcur (by rw [hpc]; rfl) (by simp : Claim.wakeUp ≠ .tearDown))
    · rfl
  · rfl

/-- On the port such a run is the same, and no core is ever poked. -/
theorem Busy.port (hcores : cfg.cores = 1) (h : (system cfg).ReachVia (Busy cfg) m) :
    (portSystem cfg).ReachVia (fun s l => l.Valid cfg ∧ ConstructsAlone s.machine l)
      { PortState.initial cfg with machine := m } := by
  refine h.invariant (I := fun m => (portSystem cfg).ReachVia
    (fun s l => l.Valid cfg ∧ ConstructsAlone s.machine l)
    { PortState.initial cfg with machine := m }) (fun m hm => ?_)
    fun m l m' hreach hport hbusy hstep => ?_
  · cases hm
    exact .init rfl
  · have hstep : m.step cfg l = .ok m' := hstep
    refine hport.step hbusy.1 ?_
    cases l with
    | core c act =>
      obtain ⟨a, hsim⟩ := Reachable.sim (hreach.mono fun _ _ hb => hb.1.1)
      obtain ⟨a', ht⟩ := hsim.trans hbusy.1.1 hstep
      have hc : c < cfg.cores := by
        rw [Machine.step] at hstep
        split at hstep
        · next hon => exact hon.2
        · cases hstep
      obtain rfl : c = 0 := by omega
      have hhalt : m'.core 0 ≠ .halted := fun hhalted => by
        obtain ⟨hpump, hdone⟩ := ht.halted hhalted
        exact absurd (hbusy.2.2 hpump) (Nat.not_lt.mpr hdone)
      -- the core does not post and its pump loop goes on, so the port is back in the kernel
      show PortState.step cfg _ (.core 0 act) = _
      unfold PortState.step
      dsimp only
      rw [if_pos ⟨Machine.running_of_core hstep, hc⟩, if_pos ⟨rfl, hbusy.2.1⟩,
        PortState.kernelStep, hstep, ok_bind, PortState.afterKernel, hsim.posting_eq_none hcores]
      simp [PortState.goto, PortState.initial, hhalt]
      rfl
    | _ => exact bind_ok.mpr ⟨m', hstep, rfl⟩

/-! ## A round -/

theorem Machine.pend_pump (m : Machine) (k : Kernel) (c : Nat) (t : ThreadRef) (pc : ThreadPc) :
    (m.pend k c t pc).core c = .pump := Function.update_self ..

theorem Machine.pend_fiber (m : Machine) (k : Kernel) (c : Nat) (t : ThreadRef) (pc : ThreadPc) :
    (m.pend k c t pc).fiber t = pc := Function.update_self ..

/-- The joiner is thread 0. It has constructed `k` threads, and the port counts `n` contexts. -/
structure Looping (cfg : Config) (k n : Nat) (m : Machine) (a : Life) : Prop where
  reach : (system cfg).ReachVia (Busy cfg) m
  sim : Sim cfg m a
  running : m.kernel.isRunning = true
  threads : m.kernel.threads = k + 1
  contexts : m.kernel.activeContexts = n
  urgent : m.kernel.priority (.user 0) = 3

variable {k n : Nat}

/-- Core 0 is in the fiber of a user thread, or its pump loop goes on. -/
theorem Looping.busy (h : Looping cfg k n m a) {l : Label} {i : Nat}
    (hl : l.Valid cfg ∧ ConstructsAlone m l) (hcur : m.kernel.current 0 = some (.user i))
    (hpump : m.core 0 = .pump → cfg.cores < n) : Busy cfg m l := by
  refine ⟨hl, ?_, fun hcore => ?_⟩
  · have hidle : m.fiber (.user i) ≠ .idle := fun he => by
      cases (h.sim.thread (.user i)).idle_fiber.mp he
    simp [Machine.idling, hcur, hidle]
  · rw [h.contexts]
    exact hpump hcore

/-- In a round: the last thread is less urgent, and those before it have ended. -/
structure Joining (cfg : Config) (k n : Nat) (m : Machine) (a : Life) : Prop extends
    Looping cfg k n m a where
  low : m.kernel.priority (.user k) = 5
  ended : ∀ j, 0 < j → j < k → a.phase (.user j) = .dead

/-- Only a thread that constructs another one or exits changes what is counted. -/
theorem Trans.contexts_stay {l : Label} (ht : Trans cfg m a l m' a') (hl : l.constructs = false)
    (hexit : ∀ t, m.acting l = some t → m.fiber t ≠ .threadExit) :
    m'.kernel.threads = m.kernel.threads ∧
      m'.kernel.activeContexts = m.kernel.activeContexts := by
  cases ht.contexts with
  | init hinit =>
    rw [hl] at hinit
    cases hinit
  | exit hacting hpc => exact absurd hpc (hexit _ hacting)
  | stay hthreads hactive => exact ⟨hthreads, hactive⟩

/-- **Step lemma**: a step of a thread that neither constructs a thread nor exits. -/
theorem Joining.step (h : Joining cfg k n m a) {act : Act} {i : Nat}
    (hact : (Label.core 0 act).constructs = false)
    (hcur : m.kernel.current 0 = some (.user i))
    (hexit : m.core 0 = .thread → m.fiber (.user i) ≠ .threadExit)
    (hpump : m.core 0 = .pump → cfg.cores < n)
    (hstep : m.step cfg (.core 0 act) = .ok m') (ht : Trans cfg m a (.core 0 act) m' a') :
    Joining cfg k n m' a' := by
  have hborn : ∀ j ≤ k, a.phase (.user j) ≠ .unborn := fun j hj hunborn => by
    have hle := (h.sim.born j).mp hunborn
    have hthreads := h.threads
    omega
  have hcontexts := ht.contexts_stay hact fun t hacting => by
    obtain ⟨c, act', hl, hcore, hcur'⟩ := m.acting_some hacting
    cases hl
    rw [hcur] at hcur'
    cases hcur'
    exact hexit hcore
  have hbusy : Busy cfg m (.core 0 act) := by
    refine h.busy ⟨?_, fun hl => ?_⟩ hcur hpump
    · cases act <;> trivial
    · rw [hact] at hl
      cases hl
  refine ⟨⟨h.reach.step hbusy hstep, ht.sim h.sim, ?_, hcontexts.1.trans h.threads,
    hcontexts.2.trans h.contexts, (ht.priority h.sim (hborn 0 (Nat.zero_le k))).trans h.urgent⟩,
    (ht.priority h.sim (hborn k (Nat.le_refl k))).trans h.low, fun j hpos hj => ?_⟩
  · rcases ht.isRunning with hsame | ⟨-, hrun⟩
    · rw [hsame, h.running]
    · exact hrun
  · have hdead := h.ended j hpos hj
    cases ht.turnover h.sim with
    | construct hthreads => omega
    | ret _ _ _ _ _ hiff => exact (hiff _).mpr (.inl hdead)
    | stay _ hiff => exact (hiff _).mpr hdead

theorem Looping.step_eq (h : Looping cfg k n m a) (act : Act) :
    m.step cfg (.core 0 act) = m.coreStep cfg 0 act :=
  if_pos ⟨h.running, cfg.cores_pos⟩

/-- A core that selects a thread when one user thread is ready comes to that one. -/
theorem Sim.selects_only (h : Sim cfg m a) {next : ThreadRef} {j : Nat}
    (hsel : a.Selects c next a') (hj : a.phase (.user j) = .ready)
    (hpin : m.kernel.pinnedCore (.user j) = c)
    (honly : ∀ u, a.phase (.user u) = .ready → u = j) : next = .user j := by
  cases hsel with
  | idle hempty =>
    have hmem : .user j ∈ a.queue (c, m.kernel.priority (.user j)) :=
      (h.queued ..).mpr ⟨hj, rfl, hpin, rfl⟩
    rw [hempty] at hmem
    cases hmem
  | @head p _ rest hq hfirst =>
    obtain ⟨hready, hidle, -, -⟩ := (h.queued c p next).mp (by simp [hq])
    cases next with
    | user u => rw [honly u hready]
    | idle => cases hidle

/-- A step of the scheduler fiber that selects no thread. -/
theorem Joining.coreMove (hcores : cfg.cores = 1) (h : Joining cfg k n m a) {pc : CorePc} {i : Nat}
    (hcur : m.kernel.current 0 = some (.user i)) (hn : cfg.cores < n)
    (hmove : CoreMove cfg m 0 pc) : Joining cfg k n (m.coreGoto m.kernel 0 pc) a :=
  h.step rfl hcur (fun hcore => absurd hcore hmove.core.2) (fun _ => hn)
    (h.sim.step_coreMove hcores h.running hmove false) (.coreMove hmove)

/-- The pump loop calls `reschedule`, which comes to the switch. -/
theorem Joining.pump (hcores : cfg.cores = 1) (h : Joining cfg k n m a) {i : Nat}
    (hn : cfg.cores < n) (hcore : m.core 0 = .pump) (hcur : m.kernel.current 0 = some (.user i)) :
    Joining cfg k n (m.coreGoto m.kernel 0 .switch) a := by
  have hpc : ∀ pc, (m.coreGoto m.kernel 0 pc).core 0 = pc := m.coreGoto_core m.kernel 0
  have hgoto := m.coreGoto_coreGoto m.kernel m.kernel 0
  have hr : Joining cfg k n (m.coreGoto m.kernel 0 .reschedule) a :=
    h.coreMove hcores hcur hn (.pump hcore (by rwa [h.contexts]))
  have hd : Joining cfg k n (m.coreGoto m.kernel 0 .drain) a :=
    hgoto .reschedule .drain ▸ hr.coreMove hcores hcur hn (.reschedule (hpc _))
  exact hgoto .drain .switch ▸ hd.coreMove hcores hcur hn (.drained (hpc _))

/-- The pump loop goes around and comes to the one user thread that is ready. -/
theorem Joining.reschedule (hcores : cfg.cores = 1) (h : Joining cfg k n m a) {i j : Nat}
    (hn : 1 < n) (hcore : m.core 0 = .pump) (hcur : m.kernel.current 0 = some (.user i))
    (hi : a.phase (.user i) ≠ .running) (hj : a.phase (.user j) = .ready)
    (honly : ∀ u, a.phase (.user u) = .ready → u = j) :
    ∃ m' a', Joining cfg k n m' a' ∧ m'.core 0 = .thread ∧
      m'.kernel.current 0 = some (.user j) ∧ m'.fiber = m.fiber ∧
      a'.phase = Function.update a.phase (.user j) .running := by
  have hs := h.pump hcores (by omega) hcore hcur
  have hpc : (m.coreGoto m.kernel 0 .switch).core 0 = .switch := m.coreGoto_core ..
  have hnr : a.phase (.user i) ≠ .ready := fun hready => by
    have hon := (h.sim.current 0 _ hcur).2
    rw [hready, hcore] at hon
    cases hon
  obtain ⟨next, k₂, a', hswitch, hpop, hsel, hsim⟩ :=
    hs.sim.switchThread cfg.cores_pos hpc hcur hnr
  have htrans : Trans cfg (m.coreGoto m.kernel 0 .switch) a (.core 0 (.next false)) _ a' :=
    .switch cfg.cores_pos hpc hcur hnr hpop hsel hsim
  -- the outgoing thread is not Running, so it is not put back
  rw [Life.rotated, if_neg hi] at hsel
  obtain rfl : next = .user j := hs.sim.selects_only hsel hj
    (hs.sim.pinnedCore_eq_zero hcores (by simp [hj])) honly
  refine ⟨_, a', hs.step rfl hcur (by simp [hpc]) (by simp [hpc]) ?_ htrans,
    Machine.coreGoto_core .., ?_, rfl, hsel.phase⟩
  · rw [hs.step_eq]
    simp only [Machine.coreStep, hpc, hswitch, ok_bind]
    rfl
  · exact (Kernel.current_dispatch k₂ 0 0 _).trans (if_pos rfl)

/-- A thread takes some steps of a signal. -/
theorem Joining.proceeds {xs : List ThreadRef} {i : Nat} (hn : cfg.cores < n)
    (h : Joining cfg k n m a) (hcur : m.kernel.current 0 = some (.user i))
    (hrun : Proceeds cfg 0 (.user i) m xs m') :
    ∃ a', Joining cfg k n m' a' ∧ m'.kernel.current 0 = some (.user i) := by
  induction hrun generalizing a with
  | refl => exact ⟨a, h, hcur⟩
  | @step m m₁ m' xs hin hstep hrest ih =>
    obtain ⟨a₁, ht⟩ := h.sim.trans (show Label.Valid cfg (.core 0 (.next false)) from trivial)
      (hstep false)
    refine ih (h.step rfl hcur (fun _ hexit => ?_) (fun _ => hn) (hstep false) ht) ?_
    · rw [hexit] at hin
      cases hin
    · have hthread : m.core 0 = .thread := by
        have hexec := (h.sim.thread (.user i)).executing.resolve_right
          (by simp [ThreadPc.suspended_of_signal hin])
        rw [← (h.sim.current 0 _ hcur).1]
        exact hexec.1
      exact (ht.current_of_thread hthread).trans hcur

/-- A point of a round: where core 0, the joiner and the thread it joins are. -/
structure Round (cfg : Config) (k n : Nat) (pc : CorePc) (t : ThreadRef) (pj pt : ThreadPc)
    (φj φt : Phase) (m : Machine) (a : Life) : Prop extends Joining cfg k n m a where
  core : m.core 0 = pc
  current : m.kernel.current 0 = some t
  joiner : m.fiber (.user 0) = pj
  target : m.fiber (.user k) = pt
  joinerPhase : a.phase (.user 0) = φj
  targetPhase : a.phase (.user k) = φt

namespace Round

variable {pc : CorePc} {pj pt : ThreadPc} {φj φt : Phase} {i : Nat} {s : SignalCall}

theorem target_ne (h : Round cfg k n pc t pj pt φj φt m a) : k ≠ 0 := by
  rintro rfl
  have heq := h.urgent.symm.trans h.low
  cases heq

theorem user_ne (h : Round cfg k n pc t pj pt φj φt m a) :
    ThreadRef.user k ≠ .user 0 := fun heq => h.target_ne (ThreadRef.user.inj heq)

/-- The termination flag of a thread that has not ended. -/
theorem not_flagged (h : Round cfg k n pc t pj pt φj φt m a) (hφt : φt ≠ .dead) :
    (m.kernel.tcbs (.user k)).terminated = false := by
  have hflag := (h.sim.thread (.user k)).terminated
  simpa [h.targetPhase, hφt] using hflag

/-- What a thread that takes a step leaves alone. -/
theorem thread_step (h : Round cfg k n .thread (.user i) pj pt φj φt m a) {act : Act}
    (hact : (Label.core 0 act).constructs = false) (hexit : m.fiber (.user i) ≠ .threadExit)
    (hstep : m.step cfg (.core 0 act) = .ok m') (ht : Trans cfg m a (.core 0 act) m' a') :
    Joining cfg k n m' a' ∧ m'.kernel.current 0 = some (.user i) ∧
      ∀ u, u ≠ .user i → m'.fiber u = m.fiber u := by
  refine ⟨h.step hact h.current (fun _ => hexit) (by simp [h.core]) hstep ht,
    (ht.current_of_thread h.core).trans h.current, fun u hu => (ht.fiber u).resolve_right ?_⟩
  rintro ⟨c, act', hl, -, hcur⟩
  cases hl
  rw [h.current] at hcur
  exact hu (Option.some.inj hcur).symm

/-- The joiner takes a step. -/
theorem joiner_step (h : Round cfg k n .thread (.user 0) pj pt φj φt m a) {act : Act}
    {pj' : ThreadPc} {pc' : CorePc} {φj' φt' : Phase}
    (hact : (Label.core 0 act).constructs = false)
    (hexit : pj ≠ .threadExit) (hstep : m.step cfg (.core 0 act) = .ok m')
    (ht : Trans cfg m a (.core 0 act) m' a') (hcore : m'.core 0 = pc')
    (hj : m'.fiber (.user 0) = pj') (hφj : a'.phase (.user 0) = φj')
    (hφt : a'.phase (.user k) = φt') : Round cfg k n pc' (.user 0) pj' pt φj' φt' m' a' := by
  obtain ⟨hjoining, hcur, hothers⟩ := h.thread_step hact (by rwa [h.joiner]) hstep ht
  exact ⟨hjoining, hcore, hcur, hj, (hothers _ h.user_ne).trans h.target, hφj, hφt⟩

/-- The thread that is joined takes a step. -/
theorem target_step (h : Round cfg k n .thread (.user k) pj pt φj φt m a) {act : Act}
    {pt' : ThreadPc} {pc' : CorePc} {φj' φt' : Phase}
    (hact : (Label.core 0 act).constructs = false)
    (hexit : pt ≠ .threadExit) (hstep : m.step cfg (.core 0 act) = .ok m')
    (ht : Trans cfg m a (.core 0 act) m' a') (hcore : m'.core 0 = pc')
    (hk : m'.fiber (.user k) = pt') (hφj : a'.phase (.user 0) = φj')
    (hφt : a'.phase (.user k) = φt') : Round cfg k n pc' (.user k) pj pt' φj' φt' m' a' := by
  obtain ⟨hjoining, hcur, hothers⟩ := h.thread_step hact (by rwa [h.target]) hstep ht
  exact ⟨hjoining, hcore, hcur, (hothers _ h.user_ne.symm).trans h.joiner, hk, hφj, hφt⟩

/-! ### The joiner -/

/-- `register_thread` makes the new thread ready, which is less urgent. -/
theorem register (hcores : cfg.cores = 1)
    (h : Round cfg k n .thread (.user 0) (.register (.user k)) pt .running
      (.pinned (.user 0)) m a) :
    ∃ m' a', Round cfg k n .thread (.user 0) .user pt .running .ready m' a' := by
  have hclaim : (m.fiber (.user 0)).claim = some (.user k, .makeReady) := by
    rw [h.joiner]
    rfl
  have hpin := h.sim.pinnedCore_eq_zero hcores (x := .user k) (by simp [h.targetPhase])
  have hpreempts : m.kernel.preempts 0 (.user k) = false := by
    simp [Kernel.preempts, Scheduler.currentThreadPriority, h.current, h.urgent, h.low]
  have hset : m.kernel.setThreadReady cfg 0 (.user k) =
      .ok (.none, m.kernel.makeReady 0 (.user k)) := by
    rcases h.sim.setThreadReady h.running h.core h.current hclaim (by simp) with
      ⟨-, hset⟩ | ⟨hne, -⟩
    · rwa [hpreempts] at hset
    · exact absurd hpin hne
  have htrans : Trans cfg m a (.core 0 (.next false)) _ _ :=
    .ready h.core h.current (.register h.joiner) hpin
  rw [hpreempts, if_neg Bool.false_ne_true] at htrans
  refine ⟨_, _, h.joiner_step rfl (by simp) ?_ htrans h.core (Machine.goto_fiber ..)
    ((Function.update_of_ne h.user_ne.symm ..).trans h.joinerPhase) (Function.update_self ..)⟩
  rw [h.step_eq]
  simp only [Machine.coreStep, h.core, h.current, h.joiner, Machine.threadNext, Machine.register,
    hset, ok_bind]
  rfl

/-- `join` finds the thread alive. -/
theorem join (h : Round cfg k n .thread (.user 0) .user pt .running .ready m a) :
    ∃ m' a', Round cfg k n .thread (.user 0)
      (.evaluate [.termination (.user k)] (.hasTerminated (.user k))) pt .running .ready m' a' := by
  have hflag := h.not_flagged (by simp)
  have hk : k < m.kernel.threads := by
    rw [h.threads]
    exact Nat.lt_succ_self k
  have hpos : 0 < [WaitableRef.termination (.user k)].length := Nat.one_pos
  have hlen : [WaitableRef.termination (.user k)].length ≤ cfg.maxWaitNodes := cfg.waitNodes_pos
  have htrans : Trans cfg m a (.core 0 (.join k)) _ _ :=
    .thread h.core h.current (.waitUntil (p := .hasTerminated (.user k)) h.joiner hpos hlen)
  refine ⟨_, _, h.joiner_step rfl (by simp) ?_ htrans h.core (Machine.goto_fiber ..)
    h.joinerPhase h.targetPhase⟩
  rw [h.step_eq]
  simp only [Machine.coreStep, h.core, h.current, h.joiner, Machine.call, if_pos hk,
    Machine.waitUntil, decide_eq_true hlen, cortosAssert_bind_true, Machine.holds, hflag]
  rfl

/-- The joiner blocks. -/
theorem block (h : Round cfg k n .thread (.user 0)
      (.evaluate [.termination (.user k)] (.hasTerminated (.user k))) pt .running .ready m a) :
    ∃ m' a', Round cfg k n .thread (.user 0)
      (.commence [.termination (.user k)] (some (.hasTerminated (.user k)))) pt
      (.waiting [.termination (.user k)]) .ready m' a' := by
  have hflag := h.not_flagged (by simp)
  have hpos : 0 < [WaitableRef.termination (.user k)].length := Nat.one_pos
  have hlen : [WaitableRef.termination (.user k)].length ≤ cfg.maxWaitNodes := cfg.waitNodes_pos
  have hnd : [WaitableRef.termination (.user k)].Nodup := List.nodup_singleton _
  have hclaim : (m.fiber (.user 0)).claim = none := by
    rw [h.joiner]
    rfl
  obtain ⟨links, hblock, hsim⟩ := h.sim.block h.core h.current h.joinerPhase rfl hclaim
    (by simp [h.joiner]) (p := some (.hasTerminated (.user k))) hpos hlen hnd
  have htrans : Trans cfg m a (.core 0 (.next false)) _ _ :=
    .block h.core h.current (.inr ⟨_, h.joiner, rfl⟩) hpos hlen hnd hsim
  refine ⟨_, _, h.joiner_step rfl (by simp) ?_ htrans h.core rfl rfl
    ((Function.update_of_ne h.user_ne ..).trans h.targetPhase)⟩
  rw [h.step_eq]
  simp only [Machine.coreStep, h.core, h.current, h.joiner, Machine.threadNext, Machine.evaluate,
    groupLock_ok.mpr ⟨⟨hlen, hnd⟩, rfl⟩, ok_bind, Machine.holds, hflag, Bool.false_eq_true,
    if_false, hblock]
  rfl

/-- The joiner leaves its core. -/
theorem commence {ws : List WaitableRef} {p : Option Predicate}
    (h : Round cfg k n .thread (.user 0) (.commence ws p) pt φj φt m a) :
    ∃ m', Round cfg k n .pump (.user 0) (.waitReturn ws p) pt φj φt m' a := by
  have htrans : Trans cfg m a (.core 0 (.next false)) _ _ :=
    .thread h.core h.current (.commence h.joiner)
  refine ⟨_, h.joiner_step rfl (by simp) ?_ htrans (Machine.pend_pump ..)
    (Machine.pend_fiber ..) h.joinerPhase h.targetPhase⟩
  rw [h.step_eq]
  simp only [Machine.coreStep, h.core, h.current, h.joiner, Machine.threadNext]

/-- The joiner has been woken and tests the flag again. -/
theorem waitReturn {ws : List WaitableRef} {p : Predicate}
    (h : Round cfg k n .thread (.user 0) (.waitReturn ws (some p)) pt φj φt m a) :
    ∃ m', Round cfg k n .thread (.user 0) (.evaluate ws p) pt φj φt m' a := by
  have htrans : Trans cfg m a (.core 0 (.next false)) _ _ :=
    .thread h.core h.current (.waitReturn h.joiner)
  refine ⟨_, h.joiner_step rfl (by simp) ?_ htrans h.core rfl h.joinerPhase h.targetPhase⟩
  rw [h.step_eq]
  simp only [Machine.coreStep, h.core, h.current, h.joiner, Machine.threadNext]

/-- `yield`. -/
theorem yield (h : Round cfg k n .thread (.user 0) .user pt φj φt m a) :
    ∃ m', Round cfg k n .pump (.user 0) .user pt φj φt m' a := by
  have htrans : Trans cfg m a (.core 0 .yield) _ _ := .thread h.core h.current (.yield h.joiner)
  refine ⟨_, h.joiner_step rfl (by simp) ?_ htrans (Machine.pend_pump ..)
    (Machine.pend_fiber ..) h.joinerPhase h.targetPhase⟩
  rw [h.step_eq]
  simp only [Machine.coreStep, h.core, h.current, h.joiner, Machine.call]

/-- `join` returns. -/
theorem joinReturns (hpt : pt ≠ .terminate)
    (h : Round cfg k n .thread (.user 0)
      (.evaluate [.termination (.user k)] (.hasTerminated (.user k))) pt φj .dead m a) :
    ∃ m', Round cfg k n .thread (.user 0) .user pt φj .dead m' a := by
  have hflag : (m.kernel.tcbs (.user k)).terminated = true :=
    (h.sim.thread (.user k)).terminated.mpr ⟨h.targetPhase, by rwa [h.target]⟩
  have hlen : [WaitableRef.termination (.user k)].length ≤ cfg.maxWaitNodes := cfg.waitNodes_pos
  have hnd : [WaitableRef.termination (.user k)].Nodup := List.nodup_singleton _
  have htrans : Trans cfg m a (.core 0 (.next false)) _ _ :=
    .thread h.core h.current (.evaluate h.joiner hflag)
  refine ⟨_, h.joiner_step rfl (by simp) ?_ htrans h.core (Machine.goto_fiber ..)
    h.joinerPhase h.targetPhase⟩
  rw [h.step_eq]
  simp only [Machine.coreStep, h.core, h.current, h.joiner, Machine.threadNext, Machine.evaluate,
    groupLock_ok.mpr ⟨⟨hlen, hnd⟩, rfl⟩, ok_bind, Machine.holds, hflag, if_true]
  rfl

/-! ### The switches -/

theorem only_ready (h : Round cfg k n pc t pj pt φj φt m a) {u : Nat}
    (hu : a.phase (.user u) = .ready) : u = 0 ∨ u = k := by
  have hlt : u < m.kernel.threads := Nat.lt_of_not_le fun hle => by
    rw [(h.sim.born u).mpr hle] at hu
    cases hu
  rw [h.threads] at hlt
  rcases Nat.eq_zero_or_pos u with rfl | hpos
  · exact .inl rfl
  · refine .inr (Nat.eq_of_lt_succ_of_not_lt hlt fun hlt => ?_)
    rw [h.ended u hpos hlt] at hu
    cases hu

/-- The core leaves the waiting joiner for the thread that it joins. -/
theorem toTarget (hcores : cfg.cores = 1) (hn : 1 < n) {ws : List WaitableRef}
    (h : Round cfg k n .pump (.user 0) pj pt (.waiting ws) .ready m a) :
    ∃ m' a', Round cfg k n .thread (.user k) pj pt (.waiting ws) .running m' a' := by
  obtain ⟨m', a', hjoining, hcore, hcur, hfiber, hphase⟩ := h.toJoining.reschedule hcores hn h.core
    h.current (by simp [h.joinerPhase]) h.targetPhase fun u hu => by
      rcases h.only_ready hu with rfl | hk
      · rw [h.joinerPhase] at hu
        cases hu
      · exact hk
  refine ⟨m', a', hjoining, hcore, hcur, ?_, ?_, ?_, ?_⟩
  · rw [hfiber, h.joiner]
  · rw [hfiber, h.target]
  · rw [hphase, Function.update_of_ne h.user_ne.symm, h.joinerPhase]
  · rw [hphase, Function.update_self]

/-- The core leaves the thread that has ended for the joiner. -/
theorem toJoiner (hcores : cfg.cores = 1) (hn : 1 < n)
    (h : Round cfg k n .pump (.user k) pj pt .ready .dead m a) :
    ∃ m' a', Round cfg k n .thread (.user 0) pj pt .running .dead m' a' := by
  obtain ⟨m', a', hjoining, hcore, hcur, hfiber, hphase⟩ := h.toJoining.reschedule hcores hn h.core
    h.current (by simp [h.targetPhase]) h.joinerPhase fun u hu => by
      rcases h.only_ready hu with hzero | rfl
      · exact hzero
      · rw [h.targetPhase] at hu
        cases hu
  refine ⟨m', a', hjoining, hcore, hcur, ?_, ?_, ?_, ?_⟩
  · rw [hfiber, h.joiner]
  · rw [hfiber, h.target]
  · rw [hphase, Function.update_self]
  · rw [hphase, Function.update_of_ne h.user_ne, h.targetPhase]

/-! ### The thread that is joined -/

/-- The thread returns from its function. -/
theorem ret (h : Round cfg k n .thread (.user k) pj .user φj .running m a) :
    ∃ m' a', Round cfg k n .thread (.user k) pj .terminate φj .dead m' a' := by
  have htrans : Trans cfg m a (.core 0 .ret) _ _ := .ret h.core h.current h.target
  refine ⟨_, _, h.target_step rfl (by simp) ?_ htrans h.core (Machine.goto_fiber ..)
    ((Function.update_of_ne h.user_ne.symm ..).trans h.joinerPhase) (Function.update_self ..)⟩
  rw [h.step_eq]
  simp only [Machine.coreStep, h.core, h.current, h.target, Machine.call]

/-- `terminate` sets the flag and signals. -/
theorem terminate (h : Round cfg k n .thread (.user k) pj .terminate φj φt m a) :
    ∃ m', Round cfg k n .thread (.user k) pj (.pick (terminationSignal k)) φj φt m' a := by
  have hflag : (m.kernel.tcbs (.user k)).terminated = false := by
    have hterm := (h.sim.thread (.user k)).terminated
    simpa [h.target] using hterm
  have htrans : Trans cfg m a (.core 0 (.next false)) _ _ :=
    .terminate h.core h.current h.target
  refine ⟨_, h.target_step rfl (by simp) ?_ htrans h.core (Machine.goto_fiber ..)
    h.joinerPhase h.targetPhase⟩
  rw [h.step_eq]
  simp only [Machine.coreStep, h.core, h.current, h.target, Machine.threadNext, Machine.terminate,
    hflag]
  rfl

theorem joiner_selected
    (h : Round cfg k n pc t pj pt (.waiting [.termination (.user k)]) φt m a) :
    ⟨.user 0, 0⟩ ∈ (terminationSignal k).selection cfg m.kernel := by
  refine mem_sortByKey.mpr ?_
  rw [h.sim.waitQueue_eq, h.sim.waiting.mem, terminationSignal, h.joinerPhase]
  rfl

/-- A thread that has ended is in no queue. -/
theorem target_not_selected (h : Round cfg k n pc (.user k) pj (.pick s) φj .dead m a)
    (hsignals : Signals cfg m a (.user k)) {x : NodeRef} (hx : x ∈ s.selection cfg m.kernel) :
    x.owner ≠ .user k := by
  have hmem := SignalCall.mem_waitQueue_of_selection hx
  rw [h.sim.waitQueue_eq] at hmem
  obtain ⟨ws, hphase, -⟩ := hsignals.waiting (by rw [h.target]; rfl) hmem
  rintro heq
  rw [heq, h.targetPhase] at hphase
  cases hphase

/-- The joiner is more urgent, so the signal does not return to the thread. -/
theorem signal (hcores : cfg.cores = 1) (hn : 1 < n)
    (h : Round cfg k n .thread (.user k) pj (.pick (terminationSignal k))
      (.waiting [.termination (.user k)]) .dead m a) :
    ∃ m' a', Round cfg k n .pump (.user k) pj .unregister .ready .dead m' a' := by
  have hsignals : Signals cfg m a (.user k) := ⟨h.sim, hcores, h.running, h.core, h.current⟩
  obtain ⟨m', hrun, hdone⟩ := hsignals.signalled h.target rfl
  obtain ⟨a', hjoining, hcur⟩ := h.toJoining.proceeds (by omega) h.current hrun
  have hwoken := h.joiner_selected
  have hkept := hdone.kept _ fun n hn => h.target_not_selected hsignals hn
  refine ⟨m', a', hjoining, ?_, hcur, ?_, ?_, ?_, ?_⟩
  · refine hdone.core.trans (if_pos ⟨_, hwoken, ?_⟩)
    rw [h.urgent, h.low]
    decide
  · rw [hdone.fiber, Function.update_of_ne h.user_ne.symm, h.joiner]
  · rw [hdone.fiber, Function.update_self]
    rfl
  · refine hjoining.sim.ready_of_settled (fun hunborn => ?_)
      (hjoining.sim.settled hcores (fun u => ?_) _) (hdone.ready _ hwoken)
    · have hle := (hjoining.sim.born 0).mp hunborn
      rw [hjoining.threads] at hle
      omega
    · rw [hdone.fiber]
      by_cases hu : u = .user k
      · rw [hu, Function.update_self]
        rfl
      · rw [Function.update_of_ne hu]
        exact ThreadPc.claim_of_suspended (hsignals.suspended hu)
  · rw [← hjoining.sim.dead_iff, Kernel.state, hkept]
    exact (h.sim.dead_iff _).mpr h.targetPhase

/-- The joiner waits, the thread ends and the joiner goes on. -/
theorem joins (hcores : cfg.cores = 1) (hn : 1 < n)
    (h : Round cfg k n .thread (.user 0) .user .user .running .ready m a) :
    ∃ m' a', Round cfg k n .thread (.user 0) .user .unregister .running .dead m' a' := by
  obtain ⟨_, _, h⟩ := h.join
  obtain ⟨_, _, h⟩ := h.block
  obtain ⟨_, h⟩ := h.commence
  obtain ⟨_, _, h⟩ := h.toTarget hcores hn
  obtain ⟨_, _, h⟩ := h.ret
  obtain ⟨_, h⟩ := h.terminate
  obtain ⟨_, _, h⟩ := h.signal hcores hn
  obtain ⟨_, _, h⟩ := h.toJoiner hcores hn
  obtain ⟨_, h⟩ := h.waitReturn
  obtain ⟨_, h⟩ := h.joinReturns (by simp)
  exact ⟨_, _, h⟩

end Round

/-! ## The rounds -/

/-- Between two rounds: the joiner runs, and all threads that it has constructed have ended. -/
structure Resting (cfg : Config) (k n : Nat) (m : Machine) (a : Life) : Prop extends
    Looping cfg k n m a where
  core : m.core 0 = .thread
  current : m.kernel.current 0 = some (.user 0)
  joiner : m.fiber (.user 0) = .user
  joinerPhase : a.phase (.user 0) = .running
  ended : ∀ j, 0 < j → j ≤ k → a.phase (.user j) = .dead

/-- After the round the joiner is where it was. -/
theorem Round.resting {pt : ThreadPc}
    (h : Round cfg k n .thread (.user 0) .user pt .running .dead m a) :
    Resting cfg k n m a where
  toLooping := h.toLooping
  core := h.core
  current := h.current
  joiner := h.joiner
  joinerPhase := h.joinerPhase
  ended j hpos hj := by
    rcases Nat.lt_or_eq_of_le hj with hlt | rfl
    · exact h.ended j hpos hlt
    · exact h.targetPhase

/-- The joiner constructs the next thread. -/
theorem Resting.construct (hprio : 5 < cfg.maxPriorities) (hfit : k + 2 < 2 ^ 32)
    (h : Resting cfg k n m a) :
    ∃ m' a', Round cfg (k + 1) (u32 (n + 1)) .thread (.user 0) (.register (.user (k + 1))) .user
      .running (.pinned (.user 0)) m' a' := by
  have hreach : Reachable cfg m := h.reach.mono fun _ _ hb => hb.1.1
  have hcount : m.kernel.pinnedThreadCount 0 < 2 ^ 32 - 1 := by
    have hthreads := h.threads
    have hexact := (PinAccounts.reach hreach).exact (by omega) 0
    have hle := m.kernel.everPinned_le 0
    omega
  have hallowed : ∃ c < cfg.cores, Kernel.allows 1#32 c = true ∧
      m.kernel.pinnedThreadCount c < 2 ^ 32 - 1 := ⟨0, cfg.cores_pos, rfl, hcount⟩
  obtain ⟨d, hconstruct, hleast⟩ := m.kernel.construct_firstLeast cfg 5 hallowed
  have htrans : Trans cfg m a (.core 0 (.construct 5 1#32))
      (m.goto (m.kernel.constructed cfg 5 1#32 d) (.user 0) (.register (.user (k + 1))))
      (a.setPhase (.user (k + 1)) (.pinned (.user 0))) := by
    rw [← h.threads]
    exact .construct h.core h.current h.joiner hleast.lt hprio
  have hstep : m.step cfg (.core 0 (.construct 5 1#32)) =
      .ok (m.goto (m.kernel.constructed cfg 5 1#32 d) (.user 0) (.register (.user (k + 1)))) := by
    rw [h.step_eq, ← h.threads]
    simp only [Machine.coreStep, h.core, h.current, h.joiner, Machine.call, hconstruct, ok_bind]
    rfl
  have hbusy : Busy cfg m (.core 0 (.construct 5 1#32)) := by
    refine h.busy ⟨hprio, fun _ i hi hpos => ?_⟩ h.current (by simp [h.core])
    rw [h.threads] at hi
    exact (h.sim.dead_iff _).mpr (h.ended i hpos (Nat.lt_succ_iff.mp hi))
  have hunborn : a.phase (.user (k + 1)) = .unborn := (h.sim.born _).mpr (Nat.le_of_eq h.threads)
  refine ⟨_, _, ⟨⟨h.reach.step hbusy hstep, htrans.sim h.sim, h.running, ?_, ?_, ?_⟩, ?_, ?_⟩,
    h.core, ?_, Machine.goto_fiber .., ?_, ?_, Function.update_self ..⟩
  · exact congrArg (· + 1) h.threads
  · exact congrArg (fun n => u32 (n + 1)) h.contexts
  · exact (htrans.priority h.sim (by simp [h.joinerPhase])).trans h.urgent
  · rw [Machine.goto_kernel, Kernel.priority, Kernel.constructed_tcbs, h.threads,
      Function.update_self]
    rfl
  · intro j hpos hj
    refine (Function.update_of_ne ?_ ..).trans (h.ended j hpos (Nat.lt_succ_iff.mp hj))
    simp [Nat.ne_of_lt hj]
  · rw [Machine.goto_kernel, Kernel.current_constructed, h.current]
  · simp [Machine.goto, h.sim.unborn_fiber hunborn]
  · simp [Life.setPhase, h.joinerPhase]

/-- **One round.** -/
theorem Resting.round (hcores : cfg.cores = 1) (hprio : 5 < cfg.maxPriorities)
    (hn : 1 < n) (hfit : n + 1 < 2 ^ 32) (hk : k + 2 < 2 ^ 32) (h : Resting cfg k n m a) :
    ∃ m' a', Resting cfg (k + 1) (n + 1) m' a' := by
  obtain ⟨_, _, h⟩ := h.construct hprio hk
  rw [u32, Nat.mod_eq_of_lt hfit] at h
  obtain ⟨_, _, h⟩ := h.register hcores
  obtain ⟨_, _, h⟩ := h.joins hcores (by omega)
  exact ⟨_, _, h.resting⟩

/-- `kernel::start` with the joiner alone. -/
theorem Resting.boot : ∃ m a, Resting oneCore 0 2 m a := by
  have hrun : RunsTo oneCore (Busy oneCore) (fun m => m.kernel.isRunning = true ∧
      m.kernel.threads = 1 ∧ m.kernel.activeContexts = 2 ∧ m.kernel.priority (.user 0) = 3 ∧
      m.core 0 = .thread ∧ m.kernel.current 0 = some (.user 0) ∧ m.fiber (.user 0) = .user ∧
      m.kernel.state (.user 0) = .running)
      [.construct 3 1#32, .start, .core 0 (.next false)] := by decide +kernel
  obtain ⟨m, hreach, hrunning, hthreads, hcontexts, hurgent, hcore, hcur, hpc, hstate⟩ := hrun.reach
  obtain ⟨a, hsim⟩ := Reachable.sim (hreach.mono fun _ _ hb => hb.1.1)
  refine ⟨m, a, ⟨hreach, hsim, hrunning, hthreads, hcontexts, hurgent⟩, hcore, hcur, hpc, ?_,
    fun j hpos hj => by omega⟩
  exact (hsim.running_iff _).mp hstate

/-- **All rounds**, as long as the counter of contexts does not wrap. -/
theorem Resting.rounds (k : Nat) (hk : k + 2 < 2 ^ 32) : ∃ m a, Resting oneCore k (k + 2) m a := by
  induction k with
  | zero => exact Resting.boot
  | succ k ih =>
    obtain ⟨m, a, h⟩ := ih (by omega)
    exact h.round rfl (by decide) (by omega) (by omega) (by omega)

/-- With the thread of the last round the counter wraps to 0, and the joiner yields. -/
theorem Round.wrapped : ∃ m a, Round oneCore (2 ^ 32 - 2) 0 .pump (.user 0) .user .user
    .running .ready m a := by
  obtain ⟨_, _, h⟩ := Resting.rounds (2 ^ 32 - 3) (by omega)
  obtain ⟨_, _, h⟩ := h.construct (by decide) (by omega)
  obtain ⟨_, _, h⟩ := h.register rfl
  obtain ⟨_, h⟩ := h.yield
  exact ⟨_, _, h⟩

/-! ## On the port -/

/-- **Run lemma**: when threads are constructed alone, two of them run at most. -/
theorem TwoLive.reach (h : (portSystem cfg).ReachVia
    (fun s l => l.Valid cfg ∧ ConstructsAlone s.machine l) s) : TwoLive s.machine := by
  refine h.invariant (I := fun s => TwoLive s.machine) (fun s hs => ?_)
    fun s l s' hs htwo hl hstep => ?_
  · cases hs
    exact nofun
  · rcases (PortTrans.of_step hstep).machine with hsame | hstep
    · rwa [hsame]
    · obtain ⟨a, hsim⟩ := (PortReachable.machine (hs.mono fun _ _ hl => hl.1)).sim
      obtain ⟨a', ht⟩ := hsim.trans hl.1 hstep
      exact htwo.step hsim ht hl.2

/-- At the test of its pump loop a core can take a step. -/
theorem PortState.step_pump (hport : s.port c = .kernel) (hcore : s.machine.core c = .pump)
    (hrun : s.machine.kernel.isRunning = true) (hc : c < cfg.cores) (b : Bool) :
    ∃ s', s.step cfg (.core c (.next b)) = .ok s' := by
  obtain ⟨m', hstep⟩ : ∃ m', s.machine.step cfg (.core c (.next b)) = .ok m' := by
    rw [Machine.step, if_pos ⟨hrun, hc⟩]
    simp only [Machine.coreStep, hcore]
    split <;> exact ⟨_, rfl⟩
  have hidle : s.machine.idling c = false := by simp [Machine.idling, hcore]
  unfold PortState.step
  dsimp only
  rw [if_pos ⟨hrun, hc⟩, if_pos ⟨hport, hidle⟩, kernelStep, hstep]
  exact ⟨_, rfl⟩

/-- One thread constructs less urgent threads and joins them, one after the other. Never are
more than two threads not terminated; but with thread number `2 ^ 32 - 2` the counter is 0, and
when the running thread yields its core reads that only the idle context is left. -/
theorem premature_shutdown : ∃ N, ∃ r : (portSystem oneCore).Run N,
    (∀ i < N, (r.label i).Valid oneCore) ∧
    (∀ i ≤ N, (r.state i).machine.unterminated.card ≤ 2) ∧ ∃ i < N,
      (r.state i).ReadsQuiescence oneCore (r.label i) 0 ∧
      0 < (r.state i).machine.kernel.threads ∧
      (r.state i).machine.kernel.state (.user 0) = .running ∧
      (r.state i).machine.exits (.user 0) = 0 := by
  obtain ⟨m, a, h⟩ := Round.wrapped
  have hport := Busy.port rfl h.reach
  obtain ⟨s', hstep⟩ := PortState.step_pump (s := { PortState.initial oneCore with machine := m })
    rfl h.core h.running oneCore.cores_pos false
  have hvalid : Label.Valid oneCore (.core 0 (.next false)) := trivial
  obtain ⟨n, r, hs, hl, hr⟩ := hport.exists_step ⟨hvalid, nofun⟩ hstep
  refine ⟨n + 1, r, fun i hi => (hr i hi).1,
    fun i hi => (TwoLive.reach (r.reachVia hr i hi)).card_le, n, Nat.lt_succ_self n, ?_⟩
  rw [hs]
  refine ⟨⟨⟨_, hl⟩, rfl, h.core, ?_⟩, ?_, ?_, ?_⟩
  · exact h.contexts ▸ Nat.zero_le _
  · exact h.threads ▸ Nat.succ_pos _
  · exact (h.sim.running_iff _).mpr h.joinerPhase
  · refine (ExitsOnce.reach (h.reach.mono fun _ _ hb => hb.1.1)).not_exited ?_
    simp [h.joiner]

end Cortos
