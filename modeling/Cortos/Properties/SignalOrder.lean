import Cortos.Lib.Lists
import Cortos.Properties.SingleCore

/-!
# The order in which a signal wakes

`signal_one` picks the best waiter, wakes it and returns. `signal_all` repeats that
until `pick_best` finds no one, while each wake takes the nodes of the woken thread out
of every queue, also the one that is being scanned.

On a single core nothing else runs until the signal returns, so no group is found
won, and every round wakes the first of the most urgent threads that are left. The
rounds therefore go through the queue in the order of a stable sort
(`Kernel.wakeOrder`), and there are as many as there are waiters.

- `Proceeds` says which threads become Ready while a thread is in a signal, in order.
- `Signals.round` is one round, in closed form; `Wakes` is what a signal has done when
  it returns, assembled from the rounds by induction over the waiters.
-/

namespace Cortos

open Lib WaitNodePool

variable {cfg : Config} {m m' : Machine} {a a' : Life} {c : Nat} {t x : ThreadRef}
  {s : SignalCall}

/-! ## Running a core -/

/-- The threads that a step has made Ready. -/
def Kernel.madeReady (k k' : Kernel) : List ThreadRef :=
  ((List.range k'.threads).map ThreadRef.user).filter fun x =>
    k.state x ≠ .ready ∧ k'.state x = .ready

/-- Thread `t` of core `c` takes some steps of a signal. Whatever the choices are, the
threads `xs` become Ready in them, one after the other, and the state is then `m'`. -/
inductive Proceeds (cfg : Config) (c : Nat) (t : ThreadRef) :
    Machine → List ThreadRef → Machine → Prop
  | refl (m : Machine) : Proceeds cfg c t m [] m
  | step {m m₁ m' : Machine} {xs : List ThreadRef} (hin : (m.fiber t).signal.isSome)
    (hstep : ∀ b, m.step cfg (.core c (.next b)) = .ok m₁) (h : Proceeds cfg c t m₁ xs m') :
    Proceeds cfg c t m (m.kernel.madeReady m₁.kernel ++ xs) m'

theorem ThreadPc.suspended_of_signal {pc : ThreadPc} (h : pc.signal.isSome) :
    pc.suspended = false := by
  cases pc <;> first | rfl | cases h

theorem Kernel.madeReady_of_states {k k' : Kernel} (h : ∀ x, k'.state x = k.state x) :
    k.madeReady k' = [] := by
  refine List.filter_eq_nil_iff.mpr fun x _ => ?_
  rw [h x]
  simp

/-- One thread becomes Ready. -/
theorem Kernel.madeReady_of_update {k k' : Kernel} {i : Nat} (hi : i < k'.threads)
    (hold : k.state (.user i) ≠ .ready) (hnew : k'.state (.user i) = .ready)
    (hother : ∀ x, x ≠ .user i → k'.state x = k.state x) : k.madeReady k' = [.user i] := by
  have honly : ∀ x ∈ (List.range k'.threads).map ThreadRef.user,
      (decide (k.state x ≠ .ready ∧ k'.state x = .ready)) = (x == .user i) := by
    intro x _
    by_cases hx : x = .user i
    · simp [hx, hold, hnew]
    · rw [hother x hx]
      simp [hx]
  have hnodup : ((List.range k'.threads).map ThreadRef.user).Nodup :=
    List.nodup_range.map fun _ _ h => ThreadRef.user.inj h
  rw [Kernel.madeReady, List.filter_congr honly, List.filter_beq,
    List.count_eq_one_of_mem hnodup (List.mem_map_of_mem (List.mem_range.mpr hi))]
  rfl

theorem Kernel.madeReady_makeReady {k : Kernel} {i : Nat} (hold : k.state x ≠ .ready)
    (hx : x = .user i) (hi : i < k.threads) : k.madeReady (k.makeReady c x) = [x] := by
  subst hx
  refine Kernel.madeReady_of_update hi hold ?_ fun u hu => ?_
  · rw [Kernel.state, Kernel.makeReady_tcbs, Function.update_self]
  · rw [Kernel.state, Kernel.makeReady_tcbs, Function.update_of_ne hu]
    rfl

/-- A step that leaves the control blocks alone. -/
theorem Proceeds.quiet {m₁ : Machine} {xs : List ThreadRef} (hin : (m.fiber t).signal.isSome)
    (hstep : ∀ b, m.step cfg (.core c (.next b)) = .ok m₁)
    (hstates : ∀ x, m₁.kernel.state x = m.kernel.state x) (h : Proceeds cfg c t m₁ xs m') :
    Proceeds cfg c t m xs m' := by
  have hrun := h.step hin hstep
  rwa [Kernel.madeReady_of_states hstates, List.nil_append] at hrun

/-- A step of the current thread inside the kernel. -/
theorem Machine.step_threadNext (hrun : m.kernel.isRunning = true) (hc : c < cfg.cores)
    (hcore : m.core c = .thread) (hcur : m.kernel.current c = some t) (hpc : m.fiber t ≠ .user)
    (b : Bool) : m.step cfg (.core c (.next b)) = m.threadNext cfg c t b := by
  rw [Machine.step, if_pos ⟨hrun, hc⟩]
  simp only [Machine.coreStep, hcore, hcur]

/-! ## One round -/

theorem Machine.goto_kernel (m : Machine) (k : Kernel) (t : ThreadRef) (pc : ThreadPc) :
    (m.goto k t pc).kernel = k := rfl

theorem Machine.goto_fiber (m : Machine) (k : Kernel) (t : ThreadRef) (pc : ThreadPc) :
    (m.goto k t pc).fiber t = pc := Function.update_self ..

theorem Machine.goto_goto (m : Machine) (k k' : Kernel) (t : ThreadRef) (pc pc' : ThreadPc) :
    (m.goto k t pc).goto k' t pc' = m.goto k' t pc' := by
  simp [Machine.goto]

theorem Machine.signalReturn_goto (m : Machine) (k k' : Kernel) (c : Nat) (t : ThreadRef)
    (pc : ThreadPc) (s : SignalCall) :
    (m.goto k t pc).signalReturn k' c t s = m.signalReturn k' c t s := by
  simp [Machine.signalReturn, Machine.pend, Machine.goto]

theorem Machine.signalNext_goto (m : Machine) (k k' : Kernel) (c : Nat) (t : ThreadRef)
    (pc : ThreadPc) (s : SignalCall) :
    (m.goto k t pc).signalNext k' c t s = m.signalNext k' c t s := by
  rw [Machine.signalNext, Machine.signalNext, Machine.goto_goto, Machine.signalReturn_goto]

theorem Machine.signalReturn_kernel (m : Machine) (k : Kernel) (c : Nat) (t : ThreadRef)
    (s : SignalCall) : (m.signalReturn k c t s).kernel = k := by
  unfold Machine.signalReturn
  split <;> rfl

theorem Machine.signalNext_kernel (m : Machine) (k : Kernel) (c : Nat) (t : ThreadRef)
    (s : SignalCall) : (m.signalNext k c t s).kernel = k := by
  unfold Machine.signalNext
  split
  · rfl
  · exact m.signalReturn_kernel k c t s

/-- Winning a group and tearing it down leave the scheduling data of every thread alone. -/
theorem Kernel.win_setPool_scheduling (k : Kernel) (x u : ThreadRef) (i : Nat) (acquired : Bool)
    (pool : WaitNodePool) (links : Links WaitableRef NodeRef) :
    (k.win x i acquired).state u = k.state u ∧
      ((k.win x i acquired).setPool x pool links).state u = k.state u ∧
      ((k.win x i acquired).setPool x pool links).priority u = k.priority u := by
  by_cases hu : u = x
  · subst hu
    simp [Kernel.state, Kernel.priority, Kernel.win, Kernel.setPool, Kernel.modifyTcb]
  · simp [Kernel.state, Kernel.priority, Kernel.win, Kernel.setPool, Kernel.modifyTcb, hu]

/-- The kernel after a signal has woken `x` for the node in slot `i`. -/
def Kernel.wokenUp (cfg : Config) (k : Kernel) (x : ThreadRef) (i : Nat) (acquired : Bool)
    (links : Links WaitableRef NodeRef) : Kernel :=
  ((k.win x i acquired).setPool x (poolFor cfg.maxWaitNodes x []) links).makeReady 0 x

/-- The control block of a thread that was woken for the node in slot `i`. -/
def Tcb.wokenUp (cfg : Config) (b : Tcb) (x : ThreadRef) (i : Nat) (acquired : Bool) : Tcb :=
  { b with
    state := .ready
    waitGroup := { b.waitGroup with done := true, winnerIndex := i, acquired := acquired }
    waitNodes := poolFor cfg.maxWaitNodes x [] }

theorem Kernel.wokenUp_current (k : Kernel) (x : ThreadRef) (i : Nat) (acquired : Bool)
    (links : Links WaitableRef NodeRef) :
    (k.wokenUp cfg x i acquired links).current 0 = k.current 0 := by
  rw [Kernel.wokenUp, Kernel.current_makeReady]
  rfl

theorem Kernel.wokenUp_tcbs (k : Kernel) (x : ThreadRef) (i : Nat) (acquired : Bool)
    (links : Links WaitableRef NodeRef) : (k.wokenUp cfg x i acquired links).tcbs =
      Function.update k.tcbs x ((k.tcbs x).wokenUp cfg x i acquired) := by
  rw [Kernel.wokenUp, Kernel.makeReady_tcbs]
  simp [Kernel.setPool, Kernel.win, Kernel.modifyTcb, Tcb.wokenUp]

theorem Kernel.wokenUp_priority (k : Kernel) (x u : ThreadRef) (i : Nat) (acquired : Bool)
    (links : Links WaitableRef NodeRef) :
    (k.wokenUp cfg x i acquired links).priority u = k.priority u := by
  rw [Kernel.priority, Kernel.wokenUp_tcbs]
  by_cases hu : u = x
  · subst hu
    rw [Function.update_self]
    rfl
  · rw [Function.update_of_ne hu]
    rfl

/-- Thread `t` executes on the single core, as every thread does that is in a signal. -/
structure Signals (cfg : Config) (m : Machine) (a : Life) (t : ThreadRef) : Prop where
  sim : Sim cfg m a
  cores : cfg.cores = 1
  running : m.kernel.isRunning = true
  core : m.core 0 = .thread
  current : m.kernel.current 0 = some t

namespace Signals

theorem of_reachable (hcores : cfg.cores = 1) (hreach : Reachable cfg m)
    (hpc : (m.fiber t).suspended = false) : ∃ a, Signals cfg m a t := by
  obtain ⟨a, h, hwait⟩ := reach_invariant (I := fun m _ => CoresWait m) (fun _ _ hv => hv)
    (fun _ _ => rfl) (fun _ hI _ ht => ht.coresWait hI) hreach
  have hexec := (h.thread t).executing.resolve_right (by simp [hpc])
  obtain ⟨hrun, hc⟩ := h.isRunning_of_thread hwait hexec.1 hexec.2
  have hpin : m.kernel.pinnedCore t = 0 := by omega
  rw [Machine.Executing, hpin] at hexec
  exact ⟨a, h, hcores, hrun, hexec.1, hexec.2⟩

variable (h : Signals cfg m a t)
include h

theorem step_eq (hpc : m.fiber t ≠ .user) (b : Bool) :
    m.step cfg (.core 0 (.next b)) = m.threadNext cfg 0 t b :=
  Machine.step_threadNext h.running (h.cores ▸ Nat.one_pos) h.core h.current hpc b

/-- The thread goes on in its signal call. -/
theorem goto {k : Kernel} {pc : ThreadPc} (hsim : Sim cfg (m.goto k t pc) a')
    (hrun : k.isRunning = m.kernel.isRunning) (hcur : k.current 0 = m.kernel.current 0) :
    Signals cfg (m.goto k t pc) a' t :=
  ⟨hsim, h.cores, hrun.trans h.running, h.core, hcur.trans h.current⟩

/-- The other threads are off the core. -/
theorem suspended {u : ThreadRef} (hu : u ≠ t) : (m.fiber u).suspended = true := by
  refine (h.sim.thread u).executing.resolve_left ?_
  rintro ⟨-, hcur⟩
  have hborn : a.phase u ≠ .unborn := fun hp => h.sim.not_current_of_unborn hp _ hcur
  rw [h.sim.pinnedCore_eq_zero h.cores hborn, h.current] at hcur
  exact hu (Option.some.inj hcur).symm

/-- No thread is on its way from one state to another. -/
theorem settled (hclaim : (m.fiber t).claim = none) (x : ThreadRef) :
    (a.phase x).settled = true := by
  refine h.sim.settled h.cores (fun u => ?_) x
  by_cases hu : u = t
  · rw [hu, hclaim]
  · exact ThreadPc.claim_of_suspended (h.suspended hu)

/-- The owner of a queued node is waiting. -/
theorem waiting (hclaim : (m.fiber t).claim = none) {n : NodeRef} {w : WaitableRef}
    (hn : n ∈ a.waiters w) :
    ∃ ws, a.phase n.owner = .waiting ws ∧ ws[n.slot]? = some w := by
  have hheld := (h.sim.waiting.mem w n).mp hn
  have hset := h.settled hclaim n.owner
  cases hp : a.phase n.owner with
  | waiting ws =>
    rw [hp] at hheld
    exact ⟨ws, rfl, hheld⟩
  | _ => simp [hp, Phase.held, Phase.settled] at hheld hset

/-- `pick_best` skips no one. -/
theorem eligible_eq (hclaim : (m.fiber t).claim = none) (w : WaitableRef) :
    WaitRep.eligible m.kernel (a.waiters w) = a.waiters w := by
  refine List.filter_eq_self.mpr fun n hn => ?_
  obtain ⟨ws, hp, -⟩ := h.waiting hclaim hn
  rw [(h.sim.thread n.owner).waiting_done (by rw [hp]; rfl)]
  rfl

/-- A thread has one node on a waitable. -/
theorem owner_inj (hclaim : (m.fiber t).claim = none) {n n' : NodeRef} {w : WaitableRef}
    (hn : n ∈ a.waiters w) (hn' : n' ∈ a.waiters w) (ho : n.owner = n'.owner) : n = n' := by
  obtain ⟨ws, hp, hget⟩ := h.waiting hclaim hn
  obtain ⟨ws', hp', hget'⟩ := h.waiting hclaim hn'
  rw [ho, hp'] at hp
  cases hp
  have hnodup := h.sim.waiting.nodup n'.owner
  simp only [hp', Phase.held] at hnodup
  obtain ⟨hlt, hval⟩ := List.getElem?_eq_some_iff.mp hget
  obtain ⟨hlt', hval'⟩ := List.getElem?_eq_some_iff.mp hget'
  have hslot := (hnodup.getElem_inj_iff).mp (hval.trans hval'.symm)
  cases n
  cases n'
  simp_all

/-- Taking the nodes of a waiter out of the queue that it is picked from. -/
theorem detach_eq (hclaim : (m.fiber t).claim = none) {n : NodeRef} {w : WaitableRef}
    (hn : n ∈ a.waiters w) : WaitRep.detach n.owner a.waiters w = (a.waiters w).erase n := by
  rw [WaitRep.detach, (h.sim.waiting.links.nodup w).erase_eq_filter]
  refine List.filter_congr fun n' hn' => ?_
  by_cases heq : n' = n
  · simp [heq]
  · have howner : n'.owner ≠ n.owner := fun ho => heq (h.owner_inj hclaim hn' hn ho)
    simp [heq, howner]

/-! ### The steps of a round -/

/-- `pick_best` returns the first of the most urgent waiters. -/
theorem pick_some (hpc : m.fiber t = .pick s) {n : NodeRef}
    (hbest : (a.waiters s.waitable).argmin (fun n => m.kernel.priority n.owner) = some n) :
    (∀ b, m.step cfg (.core 0 (.next b)) =
      .ok (m.goto m.kernel t (.wake s n (m.waits n.owner)))) ∧
    Signals cfg (m.goto m.kernel t (.wake s n (m.waits n.owner))) a t := by
  rw [← h.eligible_eq (by rw [hpc]; rfl)] at hbest
  refine ⟨fun b => ?_, h.goto ?_ rfl rfl⟩
  · rw [h.step_eq (by simp [hpc]) b]
    simp only [Machine.threadNext, hpc, Machine.pick,
      h.sim.waiting.pickBest h.sim.held_constructed, hbest]
    rfl
  · exact (LocalStep.pickSome (b := false) hpc hbest).sim h.sim h.core h.current

/-- `pick_best` finds no waiter and the signal returns. -/
theorem pick_none (hpc : m.fiber t = .pick s) (hnone : a.waiters s.waitable = []) :
    (∀ b, m.step cfg (.core 0 (.next b)) = .ok (m.signalReturn m.kernel 0 t s)) ∧
      Sim cfg (m.signalReturn m.kernel 0 t s) a := by
  rw [← h.eligible_eq (by rw [hpc]; rfl)] at hnone
  refine ⟨fun b => ?_, ?_⟩
  · rw [h.step_eq (by simp [hpc]) b]
    simp only [Machine.threadNext, hpc, Machine.pick,
      h.sim.waiting.pickBest h.sim.held_constructed, hnone]
    rfl
  · exact (LocalStep.pickNone (b := false) hpc hnone).sim h.sim h.core h.current

/-- `wake_thread` on a node in use passes its assertions. -/
theorem wake {n : NodeRef} {wait : Nat} (hpc : m.fiber t = .wake s n wait)
    (hslot : n.slot < (a.phase n.owner).held.length) :
    (∀ b, m.step cfg (.core 0 (.next b)) =
      .ok (m.goto m.kernel t (.tryWin s n wait n.owner n.owner n.slot))) ∧
    Signals cfg (m.goto m.kernel t (.tryWin s n wait n.owner n.owner n.slot)) a t := by
  refine ⟨fun b => ?_, h.goto ?_ rfl rfl⟩
  · rw [h.step_eq (by simp [hpc]) b]
    simp only [Machine.threadNext, hpc, h.sim.wake_ok t s wait hslot]
    rfl
  · exact (LocalStep.wake (b := false) hpc hslot).sim h.sim h.core h.current

/-- `try_win` on the group of a waiting thread succeeds. -/
theorem tryWin {n : NodeRef} {wait i : Nat} {ws : List WaitableRef}
    (hpc : m.fiber t = .tryWin s n wait n.owner n.owner i) (hx : a.phase n.owner = .waiting ws) :
    (∀ b, m.step cfg (.core 0 (.next b)) =
      .ok (m.goto (m.kernel.win n.owner i s.acquired) t (.teardown s n.owner n.owner))) ∧
    Signals cfg (m.goto (m.kernel.win n.owner i s.acquired) t (.teardown s n.owner n.owner))
      (a.setPhase n.owner (.won t ws)) t := by
  have hdone : m.kernel.done n.owner = false :=
    (h.sim.thread n.owner).waiting_done (by rw [hx]; rfl)
  refine ⟨fun b => ?_, h.goto (h.sim.win h.core h.current hpc hx) rfl rfl⟩
  rw [h.step_eq (by simp [hpc]) b]
  simp only [Machine.threadNext, hpc, Machine.tryWin, hdone]
  rfl

/-- `teardown_wait_group` unlinks and frees all nodes of the thread. -/
theorem teardown {ws : List WaitableRef} (hpc : m.fiber t = .teardown s x x)
    (hx : a.phase x = .won t ws) : ∃ links,
    (∀ b, m.step cfg (.core 0 (.next b)) = .ok (m.goto
      (m.kernel.setPool x (poolFor cfg.maxWaitNodes x []) links) t (.setReady s x))) ∧
    Signals cfg (m.goto (m.kernel.setPool x (poolFor cfg.maxWaitNodes x []) links) t
      (.setReady s x)) (a.tearDown t x) t := by
  obtain ⟨links, htear, hsim⟩ := h.sim.tearDown h.core h.current hpc hx
  refine ⟨links, fun b => ?_, h.goto hsim rfl rfl⟩
  rw [h.step_eq (by simp [hpc]) b]
  simp only [Machine.threadNext, hpc, htear]
  rfl

/-- `set_thread_ready` enqueues the thread and says whether it is more urgent. -/
theorem setReady (hpc : m.fiber t = .setReady s x) :
    (∀ b, m.step cfg (.core 0 (.next b)) = .ok (m.signalNext (m.kernel.makeReady 0 x) 0 t
      { s with reschedule := s.reschedule || m.kernel.preempts 0 x })) ∧
    Sim cfg (m.signalNext (m.kernel.makeReady 0 x) 0 t
      { s with reschedule := s.reschedule || m.kernel.preempts 0 x })
      (a.enqueue 0 (m.kernel.priority x) x) := by
  have hclaim : (m.fiber t).claim = some (x, .wakeUp) := by rw [hpc]; rfl
  obtain ⟨-, -, hphase⟩ := h.sim.claimed h.core h.current hclaim (by simp)
  have hpin : m.kernel.pinnedCore x = 0 := by
    have hborn : a.phase x ≠ .unborn := by
      rcases hphase with ⟨hp, -⟩ | ⟨hp, -⟩ <;> simp [hp]
    have := (h.sim.thread x).core_lt hborn
    have := h.cores
    omega
  have hset : m.kernel.setThreadReady cfg 0 x =
      .ok (if m.kernel.preempts 0 x then .reschedule else .none, m.kernel.makeReady 0 x) := by
    rcases h.sim.setThreadReady h.running h.core h.current hclaim (by simp) with
      ⟨-, hset⟩ | ⟨hne, -⟩
    · exact hset
    · exact absurd hpin hne
  refine ⟨fun b => ?_, ?_⟩
  · rw [h.step_eq (by simp [hpc]) b]
    simp only [Machine.threadNext, hpc, Machine.setReady, hset, ok_bind]
    cases m.kernel.preempts 0 x
    · rw [Bool.or_false]
      rfl
    · rw [Bool.or_true]
      rfl
  · have htrans : Trans cfg m a (.core 0 (.next false)) _ _ :=
      .ready h.core h.current (.setReady hpc rfl) hpin
    exact htrans.sim h.sim

/-- **One round**: five steps after `pick_best` has found node `n`, its thread is Ready
with the result of this signal, all its nodes are gone, and the signal goes on with its
loop or returns. -/
theorem round (hpc : m.fiber t = .pick s) {n : NodeRef}
    (hbest : (a.waiters s.waitable).argmin (fun n => m.kernel.priority n.owner) = some n) :
    ∃ links a', Sim cfg (m.signalNext (m.kernel.wokenUp cfg n.owner n.slot s.acquired links) 0 t
        { s with reschedule := s.reschedule || m.kernel.preempts 0 n.owner }) a' ∧
      (∀ w, (m.kernel.wokenUp cfg n.owner n.slot s.acquired links).waitQueue cfg w =
        (m.kernel.waitQueue cfg w).filter fun n' => n'.owner ≠ n.owner) ∧
      ∀ {xs m'}, Proceeds cfg 0 t (m.signalNext
        (m.kernel.wokenUp cfg n.owner n.slot s.acquired links) 0 t
        { s with reschedule := s.reschedule || m.kernel.preempts 0 n.owner }) xs m' →
        Proceeds cfg 0 t m (n.owner :: xs) m' := by
  have hmem : n ∈ a.waiters s.waitable := List.argmin_mem hbest
  obtain ⟨ws, hphase, hget⟩ := h.waiting (by rw [hpc]; rfl) hmem
  have hslot : n.slot < (a.phase n.owner).held.length := by
    rw [hphase]
    exact (List.getElem?_eq_some_iff.mp hget).1
  obtain ⟨i, hi, howner⟩ := h.sim.held_constructed n.owner
    (List.ne_nil_of_length_pos (Nat.zero_lt_of_lt hslot))
  have hblocked : m.kernel.state n.owner = .blocked := by
    rw [(h.sim.thread n.owner).state, hphase]
    rfl
  obtain ⟨hstep₁, h₁⟩ := h.pick_some hpc hbest
  obtain ⟨hstep₂, h₂⟩ := h₁.wake (Function.update_self ..) hslot
  obtain ⟨hstep₃, h₃⟩ := h₂.tryWin (Function.update_self ..) hphase
  obtain ⟨links, hstep₄, h₄⟩ := h₃.teardown (Function.update_self ..) (Function.update_self ..)
  obtain ⟨hstep₅, hsim⟩ := h₄.setReady (Function.update_self ..)
  simp only [Machine.goto_goto, Machine.goto_kernel] at hstep₂ hstep₃ hstep₄ hstep₅ hsim
  simp only [Machine.signalNext_goto] at hstep₅ hsim
  have hframe := fun u => m.kernel.win_setPool_scheduling n.owner u n.slot s.acquired
    (poolFor cfg.maxWaitNodes n.owner []) links
  have hpreempts := Kernel.preempts_congr (c := 0) (k := m.kernel) (fun u => (hframe u).2.2) rfl
    n.owner
  rw [hpreempts] at hstep₅ hsim
  refine ⟨links, _, hsim, fun w => ?_, fun {xs m'} hrest => ?_⟩
  · have hqueue := hsim.waitQueue_eq w
    rw [Machine.signalNext_kernel] at hqueue
    rw [h.sim.waitQueue_eq w]
    exact hqueue
  have hnotReady : ((m.kernel.win n.owner n.slot s.acquired).setPool n.owner
      (poolFor cfg.maxWaitNodes n.owner []) links).state n.owner ≠ .ready := by
    rw [(hframe n.owner).2.1, hblocked]
    simp
  have hwoken := hrest.step (by rw [Machine.goto_fiber]; rfl) hstep₅
  rw [Machine.signalNext_kernel, Machine.goto_kernel,
    Kernel.madeReady_makeReady hnotReady howner hi] at hwoken
  have hin : ∀ k pc, pc.signal.isSome → ((m.goto k t pc).fiber t).signal.isSome :=
    fun k pc hpc => by rwa [Machine.goto_fiber]
  exact .quiet (by rw [hpc]; rfl) hstep₁ (fun _ => rfl) <|
    .quiet (hin _ _ rfl) hstep₂ (fun _ => rfl) <|
    .quiet (hin _ _ rfl) hstep₃ (fun u => (hframe u).1) <|
    .quiet (hin _ _ rfl) hstep₄ (fun u => (hframe u).2.1.trans (hframe u).1.symm) hwoken

end Signals

/-! ## A whole signal -/

/-- The nodes on waitable `w` in the order in which `signal_all` wakes their owners: by
priority, and as they were queued among equals. -/
def Kernel.wakeOrder (cfg : Config) (k : Kernel) (w : WaitableRef) : List NodeRef :=
  sortByKey (fun n => k.priority n.owner) (k.waitQueue cfg w)

/-- What signal `s` of thread `t` has done when it returns, if it has woken for the nodes
`ns`. -/
structure Wakes (cfg : Config) (m : Machine) (t : ThreadRef) (s : SignalCall) (ns : List NodeRef)
    (m' : Machine) : Prop where
  fiber : m'.fiber = Function.update m.fiber t s.ret
  core : m'.core 0 =
    if s.reschedule || ns.any fun n => m.kernel.preempts 0 n.owner then .pump else .thread
  woken : ∀ n ∈ ns, m'.kernel.tcbs n.owner =
    (m.kernel.tcbs n.owner).wokenUp cfg n.owner n.slot s.acquired
  kept : ∀ x, (∀ n ∈ ns, n.owner ≠ x) → m'.kernel.tcbs x = m.kernel.tcbs x
  queues : ∀ w, m'.kernel.waitQueue cfg w =
    (m.kernel.waitQueue cfg w).filter fun n' => ∀ n ∈ ns, n'.owner ≠ n.owner

/-- A signal that wakes no one more returns. -/
theorem Wakes.none (hcore : m.core 0 = .thread) :
    Wakes cfg m t s [] (m.signalReturn m.kernel 0 t s) := by
  have hkernel := m.signalReturn_kernel m.kernel 0 t s
  refine ⟨?_, ?_, nofun, fun x _ => ?_, fun w => ?_⟩
  · unfold Machine.signalReturn
    split <;> rfl
  · unfold Machine.signalReturn
    cases s.reschedule
    · exact hcore
    · simp [Machine.pend]
  · rw [hkernel]
  · rw [hkernel]
    simp

/-- The signal wakes the owner of `n` and then those of `ns`. -/
theorem Wakes.cons {n : NodeRef} {ns : List NodeRef} {links : Links WaitableRef NodeRef}
    {pc : ThreadPc}
    (h : Wakes cfg (m.goto (m.kernel.wokenUp cfg n.owner n.slot s.acquired links) t pc) t
      { s with reschedule := s.reschedule || m.kernel.preempts 0 n.owner } ns m')
    (hqueue : ∀ w, (m.kernel.wokenUp cfg n.owner n.slot s.acquired links).waitQueue cfg w =
      (m.kernel.waitQueue cfg w).filter fun n' => n'.owner ≠ n.owner)
    (hne : ∀ n' ∈ ns, n'.owner ≠ n.owner) : Wakes cfg m t s (n :: ns) m' := by
  have htcbs : (m.kernel.wokenUp cfg n.owner n.slot s.acquired links).tcbs = _ :=
    m.kernel.wokenUp_tcbs n.owner n.slot s.acquired links
  have hpriority : ∀ u, (m.kernel.wokenUp cfg n.owner n.slot s.acquired links).priority u =
      m.kernel.priority u :=
    fun u => m.kernel.wokenUp_priority n.owner u n.slot s.acquired links
  have hpreempts := Kernel.preempts_congr hpriority
    (m.kernel.wokenUp_current n.owner n.slot s.acquired links)
  obtain ⟨hfiber, hcore, hwoken, hkept, hqueues⟩ := h
  simp only [Machine.goto_kernel] at hcore hwoken hkept hqueues
  refine ⟨?_, ?_, fun n' hn' => ?_, fun x hx => ?_, fun w => ?_⟩
  · rw [hfiber]
    exact Function.update_idem ..
  · rw [hcore]
    simp only [hpreempts, List.any_cons, Bool.or_assoc]
    rfl
  · rcases List.mem_cons.mp hn' with rfl | hmem
    · rw [hkept _ hne, htcbs, Function.update_self]
    · rw [hwoken n' hmem, htcbs, Function.update_of_ne (hne n' hmem)]
  · rw [hkept x fun n' hn' => hx n' (List.mem_cons_of_mem _ hn'), htcbs,
      Function.update_of_ne (hx n List.mem_cons_self).symm]
  · rw [hqueues, hqueue, List.filter_filter]
    refine List.filter_congr fun n' _ => ?_
    simp [Bool.and_comm]

/-- The threads that signal `s` is to wake, by their nodes: `signal_one` wakes the first. -/
def SignalCall.selection (cfg : Config) (k : Kernel) (s : SignalCall) : List NodeRef :=
  if s.all then k.wakeOrder cfg s.waitable else (k.wakeOrder cfg s.waitable).take 1

namespace Signals

variable (h : Signals cfg m a t)
include h

/-- The last round finds no one. -/
theorem none_woken (hpc : m.fiber t = .pick s) (horder : m.kernel.wakeOrder cfg s.waitable = []) :
    ∃ m', Proceeds cfg 0 t m [] m' ∧ Wakes cfg m t s [] m' := by
  rw [Kernel.wakeOrder, sortByKey_eq_nil, h.sim.waitQueue_eq] at horder
  obtain ⟨hstep, -⟩ := h.pick_none hpc horder
  refine ⟨_, .quiet (by rw [hpc]; rfl) hstep (fun x => ?_) (.refl _), .none h.core⟩
  rw [Machine.signalReturn_kernel]

/-- A round wakes the owner of the first node in the order, and leaves the order of the
others. -/
theorem first_woken (hpc : m.fiber t = .pick s) {n : NodeRef} {ns : List NodeRef}
    (horder : m.kernel.wakeOrder cfg s.waitable = n :: ns) :
    ∃ links a', Sim cfg (m.signalNext (m.kernel.wokenUp cfg n.owner n.slot s.acquired links) 0 t
        { s with reschedule := s.reschedule || m.kernel.preempts 0 n.owner }) a' ∧
      (∀ w, (m.kernel.wokenUp cfg n.owner n.slot s.acquired links).waitQueue cfg w =
        (m.kernel.waitQueue cfg w).filter fun n' => n'.owner ≠ n.owner) ∧
      (m.kernel.wokenUp cfg n.owner n.slot s.acquired links).wakeOrder cfg s.waitable = ns ∧
      ∀ {xs m'}, Proceeds cfg 0 t (m.signalNext
        (m.kernel.wokenUp cfg n.owner n.slot s.acquired links) 0 t
        { s with reschedule := s.reschedule || m.kernel.preempts 0 n.owner }) xs m' →
        Proceeds cfg 0 t m (n.owner :: xs) m' := by
  rw [Kernel.wakeOrder, h.sim.waitQueue_eq] at horder
  obtain ⟨hbest, hns⟩ := argmin_of_sortByKey horder
  obtain ⟨links, a', hsim, hqueue, hgo⟩ := h.round hpc hbest
  refine ⟨links, a', hsim, hqueue, ?_, hgo⟩
  have hdetach := h.detach_eq (by rw [hpc]; rfl) (List.argmin_mem hbest)
  rw [WaitRep.detach] at hdetach
  rw [Kernel.wakeOrder, hqueue, h.sim.waitQueue_eq, hdetach, hns]
  simp only [Kernel.wokenUp_priority]

/-- **`signal_all`** wakes every waiter in turn, by induction on those that are left. -/
theorem all_woken (hpc : m.fiber t = .pick s) (hall : s.all = true) {ns : List NodeRef}
    (horder : m.kernel.wakeOrder cfg s.waitable = ns) :
    ∃ m', Proceeds cfg 0 t m (ns.map (·.owner)) m' ∧ Wakes cfg m t s ns m' := by
  induction ns generalizing m a s with
  | nil => exact h.none_woken hpc horder
  | cons n ns ih =>
    obtain ⟨links, a', hsim, hqueue, hrest, hgo⟩ := h.first_woken hpc horder
    -- the loop goes on
    rw [Machine.signalNext, if_pos hall] at hsim hgo
    have h₁ := h.goto hsim rfl (m.kernel.wokenUp_current ..)
    obtain ⟨m', hrun, hwakes⟩ := ih h₁ (Function.update_self ..) hall hrest
    refine ⟨m', hgo hrun, hwakes.cons hqueue fun n' hn' => ?_⟩
    rw [← hrest, Kernel.wakeOrder, mem_sortByKey, hqueue] at hn'
    exact of_decide_eq_true (List.mem_filter.mp hn').2

/-- **`signal_one`** wakes the first waiter, if there is one. -/
theorem one_woken (hpc : m.fiber t = .pick s) (hone : s.all = false) :
    ∃ m', Proceeds cfg 0 t m (((m.kernel.wakeOrder cfg s.waitable).take 1).map (·.owner)) m' ∧
      Wakes cfg m t s ((m.kernel.wakeOrder cfg s.waitable).take 1) m' := by
  cases horder : m.kernel.wakeOrder cfg s.waitable with
  | nil => exact h.none_woken hpc horder
  | cons n ns =>
    obtain ⟨links, a', hsim, hqueue, -, hgo⟩ := h.first_woken hpc horder
    refine ⟨_, hgo (.refl _), ?_⟩
    rw [Machine.signalNext, if_neg (by simp [hone]),
      ← Machine.signalReturn_goto m _ _ 0 t (.pick s) _]
    exact Wakes.cons (.none h.core) hqueue (by simp)

/-- Where a waiting thread goes on when it runs again. -/
theorem waiting_fiber (hpc : m.fiber t = .pick s) {n : NodeRef} {w : WaitableRef}
    (hn : n ∈ a.waiters w) : n.owner ≠ t ∧
      ∃ ws p, m.fiber n.owner = .waitReturn ws p ∧ w ∈ ws ∧ ws.idxOf w = n.slot := by
  obtain ⟨ws, hphase, hget⟩ := h.waiting (by rw [hpc]; rfl) hn
  have hadm := (h.sim.thread n.owner).admits
  rw [hphase, Phase.admits] at hadm
  have hne : n.owner ≠ t := by
    rintro heq
    rw [heq, hpc] at hadm
    cases hadm
  have hoff := h.suspended hne
  obtain ⟨p, hret⟩ : ∃ p, m.fiber n.owner = .waitReturn ws p := by
    cases hfiber : m.fiber n.owner <;> simp_all [ThreadPc.blockedOn, ThreadPc.suspended]
  have hnodup := h.sim.waiting.nodup n.owner
  simp only [hphase, Phase.held] at hnodup
  obtain ⟨hlt, rfl⟩ := List.getElem?_eq_some_iff.mp hget
  exact ⟨hne, ws, p, hret, List.getElem_mem hlt, hnodup.idxOf_getElem n.slot hlt⟩

end Signals

/-- **What a signal does**, from the state in which it is called to the one in which it
returns. The threads that it wakes are the owners of the nodes in `s.selection`. -/
structure Signalled (cfg : Config) (m : Machine) (t : ThreadRef) (s : SignalCall) (m' : Machine) :
    Prop where
  /-- It is back in its caller. -/
  fiber : m'.fiber = Function.update m.fiber t s.ret
  /-- It has asked for a reschedule exactly when a woken thread is more urgent. -/
  core : m'.core 0 =
    if ∃ n ∈ s.selection cfg m.kernel, m.kernel.priority n.owner < m.kernel.priority t
      then .pump else .thread
  /-- What the wait of a woken thread returns. -/
  result : ∀ n ∈ s.selection cfg m.kernel, ∃ ws p,
    m'.fiber n.owner = .waitReturn ws p ∧ s.waitable ∈ ws ∧
      (m'.waitReturn n.owner ws p).result n.owner =
        { index := ws.idxOf s.waitable, acquired := s.acquired }
  ready : ∀ n ∈ s.selection cfg m.kernel, m'.kernel.state n.owner = .ready
  /-- A woken thread has no node in use, -/
  nodes : ∀ n ∈ s.selection cfg m.kernel,
    (m'.kernel.tcbs n.owner).waitNodes = WaitNodePool.create cfg.maxWaitNodes n.owner
  /-- and none is left on a queue. The other nodes stay where they were. -/
  queues : ∀ w, m'.kernel.waitQueue cfg w =
    (m.kernel.waitQueue cfg w).filter fun n' => ∀ n ∈ s.selection cfg m.kernel, n'.owner ≠ n.owner
  emptied : s.all = true → m'.kernel.waitQueue cfg s.waitable = []
  kept : ∀ x, (∀ n ∈ s.selection cfg m.kernel, n.owner ≠ x) →
    m'.kernel.tcbs x = m.kernel.tcbs x

theorem SignalCall.mem_waitQueue_of_selection {k : Kernel} {n : NodeRef}
    (hn : n ∈ s.selection cfg k) : n ∈ k.waitQueue cfg s.waitable := by
  have hmem : n ∈ k.wakeOrder cfg s.waitable := by
    unfold SignalCall.selection at hn
    split at hn
    · exact hn
    · exact List.mem_of_mem_take hn
  exact mem_sortByKey.mp hmem

/-- A signal wakes each of its threads once. -/
theorem Signals.selection_nodup (h : Signals cfg m a t) (hpc : m.fiber t = .pick s) :
    ((s.selection cfg m.kernel).map (·.owner)).Nodup := by
  have hqueue : (m.kernel.wakeOrder cfg s.waitable).Nodup := by
    rw [Kernel.wakeOrder, sortByKey, (List.perm_insertionSort ..).nodup_iff, h.sim.waitQueue_eq]
    exact h.sim.waiting.links.nodup s.waitable
  have hnodup : (s.selection cfg m.kernel).Nodup := by
    unfold SignalCall.selection
    split
    · exact hqueue
    · exact hqueue.sublist (List.take_sublist 1 _)
  refine hnodup.map_on fun n hn n' hn' ho => ?_
  have hmem := SignalCall.mem_waitQueue_of_selection hn
  have hmem' := SignalCall.mem_waitQueue_of_selection hn'
  rw [h.sim.waitQueue_eq] at hmem hmem'
  exact h.owner_inj (by rw [hpc]; rfl) hmem hmem' ho

/-- The account of the rounds, read by a caller. -/
theorem Wakes.signalled (h : Signals cfg m a t) (hpc : m.fiber t = .pick s)
    (hfresh : s.reschedule = false) (hwakes : Wakes cfg m t s (s.selection cfg m.kernel) m') :
    Signalled cfg m t s m' := by
  have hfiber : ∀ n ∈ s.selection cfg m.kernel, ∃ ws p, m'.fiber n.owner = .waitReturn ws p ∧
      s.waitable ∈ ws ∧ ws.idxOf s.waitable = n.slot := by
    intro n hn
    have hmem := SignalCall.mem_waitQueue_of_selection hn
    rw [h.sim.waitQueue_eq] at hmem
    obtain ⟨hne, ws, p, hret, hw, hidx⟩ := h.waiting_fiber hpc hmem
    refine ⟨ws, p, ?_, hw, hidx⟩
    rw [hwakes.fiber, Function.update_of_ne hne, hret]
  have hpreempts : ∀ x, m.kernel.preempts 0 x = decide (m.kernel.priority x < m.kernel.priority t) :=
    fun x => by simp only [Kernel.preempts, Scheduler.currentThreadPriority, h.current]
  refine ⟨hwakes.fiber, ?_, fun n hn => ?_, fun n hn => ?_, fun n hn => ?_, hwakes.queues,
    fun hall => ?_, hwakes.kept⟩
  · rw [hwakes.core, hfresh, Bool.false_or]
    simp only [hpreempts, List.any_eq_true, decide_eq_true_eq]
  · obtain ⟨ws, p, hret, hw, hidx⟩ := hfiber n hn
    refine ⟨ws, p, hret, hw, ?_⟩
    rw [Machine.waitReturn_result, hwakes.woken n hn, hidx]
    rfl
  · rw [Kernel.state, hwakes.woken n hn]
    rfl
  · rw [hwakes.woken n hn, create_eq]
    rfl
  · rw [hwakes.queues, List.filter_eq_nil_iff]
    intro n hn hkeep
    have hsel : n ∈ s.selection cfg m.kernel := by
      rw [SignalCall.selection, if_pos hall]
      exact mem_sortByKey.mpr hn
    exact of_decide_eq_true hkeep n hsel rfl

/-- A signal that has just been called. -/
theorem Signals.signalled (h : Signals cfg m a t) (hpc : m.fiber t = .pick s)
    (hfresh : s.reschedule = false) :
    ∃ m', Proceeds cfg 0 t m ((s.selection cfg m.kernel).map (·.owner)) m' ∧
      Signalled cfg m t s m' := by
  obtain ⟨m', hrun, hwakes⟩ : ∃ m',
      Proceeds cfg 0 t m ((s.selection cfg m.kernel).map (·.owner)) m' ∧
        Wakes cfg m t s (s.selection cfg m.kernel) m' := by
    unfold SignalCall.selection
    split
    next hall => exact h.all_woken hpc hall rfl
    next hone => exact h.one_woken hpc (Bool.eq_false_iff.mpr hone)
  exact ⟨m', hrun, hwakes.signalled h hpc hfresh⟩

/-- **Signal order and completeness.** On a single core, a signal returns after some steps
of its thread. By then it has made Ready exactly the threads of its selection, one after
the other: the first of the waiters in the order of `Kernel.wakeOrder` for `signal_one`,
all of them for `signal_all`. -/
theorem signal_wakes_in_order (hcores : cfg.cores = 1) (hreach : Reachable cfg m)
    (hpc : m.fiber t = .pick s) (hfresh : s.reschedule = false) :
    ∃ m', Proceeds cfg 0 t m ((s.selection cfg m.kernel).map (·.owner)) m' ∧
      Signalled cfg m t s m' := by
  obtain ⟨a, h⟩ := Signals.of_reachable hcores hreach (t := t) (by rw [hpc]; rfl)
  exact h.signalled hpc hfresh

/-- The second thread is the more urgent one and waits on object 1 only after the first has
waited on objects 0 and 1. A third thread signals object 1 to all. -/
theorem signal_all_wakes_two : ∃ m m' : Machine,
    Proceeds oneCore 0 (.user 2) m [.user 1, .user 0] m' ∧
      Signalled oneCore m (.user 2) ⟨.object 1, true, true, false, false⟩ m' := by
  have hrun : RunsTo oneCore (fun _ l => l.Valid oneCore)
      (fun m => m.fiber (.user 2) = .pick ⟨.object 1, true, true, false, false⟩ ∧
        (SignalCall.selection oneCore m.kernel ⟨.object 1, true, true, false, false⟩).map
          (·.owner) = [.user 1, .user 0])
      ([.construct 5 1#32, .construct 4 1#32, .construct 6 1#32, .start] ++ steps 0 1 ++
        [.core 0 (.waitForAny [2])] ++ steps 0 5 ++ [.core 0 (.waitForAny [0, 1])] ++ steps 0 5 ++
        [.core 0 (.signalOne 2 false)] ++ steps 0 10 ++ [.core 0 (.waitForAny [1])] ++ steps 0 5 ++
        [.core 0 (.signalAll 1 true)]) := by
    decide +kernel
  obtain ⟨m, hreach, hpc, hsel⟩ := hrun.reach
  obtain ⟨m', hproceeds, hsignalled⟩ := signal_wakes_in_order rfl hreach hpc rfl
  rw [hsel] at hproceeds
  exact ⟨m, m', hproceeds, hsignalled⟩

end Cortos
