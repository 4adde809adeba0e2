import Cortos.Machine.CoreSteps

/-!
# What a step can do

`Trans cfg m a l m' a'`: in abstract state `a`, the step labelled `l` takes `m`
to `m'` and the abstract state to `a'`. Its constructors say, for every way in
which the system can move, what exactly changes, with the kernel functions in
closed form. `LocalStep` lists the moves of a thread that change nothing but its
own fiber, counters and spinlocks.

- `Machine.step_outcome`: from a simulated state every step is one of these, or
  fails one of the few assertions of `Panic.mayFail`;
- `Trans.sim`: they keep the simulation relation;
- `reach_sim`: so every reachable state is simulated.

All later invariants are proved by cases on `Trans`, never on the step function.
-/

namespace Cortos

open Lib WaitNodePool

variable {cfg : Config} {m m' : Machine} {a a' : Life} {c : Nat} {t x : ThreadRef}

/-! ## Local steps -/

/-- Where a woken thread goes on: `wait_for_any` returns, `wait_until` goes around
its loop. -/
def ThreadPc.afterWait (ws : List WaitableRef) : Option Predicate → ThreadPc
  | none => .user
  | some p => .evaluate ws p

/-- A step of the current thread `t` of core `c` that moves its fiber and
otherwise changes counters, spinlocks and results only. The indices are what the
thread does, where it goes, and the next state. -/
inductive LocalStep (cfg : Config) (m : Machine) (a : Life) (c : Nat) (t : ThreadRef) :
    Act → ThreadPc → Machine → Prop
  | yield (hpc : m.fiber t = .user) :
    LocalStep cfg m a c t .yield .user (m.pend m.kernel c t .user)
  | signal {act : Act} {o : Nat} {acquired all : Bool} (hpc : m.fiber t = .user)
    (hact : act = if all then .signalAll o acquired else .signalOne o acquired) :
    LocalStep cfg m a c t act (.pick ⟨.object o, acquired, all, false, false⟩)
      (m.goto m.kernel t (.pick ⟨.object o, acquired, all, false, false⟩))
  | waitUntil {act : Act} {ws : List WaitableRef} {p : Predicate} (hpc : m.fiber t = .user)
    (hpos : 0 < ws.length) (hlen : ws.length ≤ cfg.maxWaitNodes) :
    LocalStep cfg m a c t act (.evaluate ws p)
      (Machine.goto { m with result := Function.update m.result t {} } m.kernel t
        (.evaluate ws p))
  | waitSkip {act : Act} (hpc : m.fiber t = .user) :
    LocalStep cfg m a c t act .user { m with result := Function.update m.result t {} }
  | lock {l : Nat} (hpc : m.fiber t = .user) :
    LocalStep cfg m a c t (.lock l) (.spin l)
      (m.goto (Scheduler.disablePreemption m.kernel c) t (.spin l))
  | tryLock {l : Nat} (hpc : m.fiber t = .user) :
    LocalStep cfg m a c t (.tryLock l) .user
      { m with kernel := { m.kernel with spinlocks := Function.update m.kernel.spinlocks l true } }
  | unlock {l : Nat} {k : Kernel} (hpc : m.fiber t = .user)
    (hk : Scheduler.enablePreemption
      { m.kernel with spinlocks := Function.update m.kernel.spinlocks l false } c = .ok k) :
    LocalStep cfg m a c t (.unlock l) .user { m with kernel := k }
  | idle {b : Bool} (hpc : m.fiber t = .idle) :
    LocalStep cfg m a c t (.next b) .idle (m.pend m.kernel c t .idle)
  | pickNone {b : Bool} {s : SignalCall} (hpc : m.fiber t = .pick s)
    (hnone : WaitRep.eligible m.kernel (a.waiters s.waitable) = []) :
    LocalStep cfg m a c t (.next b) s.ret (m.signalReturn m.kernel c t s)
  | pickSome {b : Bool} {s : SignalCall} {n : NodeRef} (hpc : m.fiber t = .pick s)
    (hbest : (WaitRep.eligible m.kernel (a.waiters s.waitable)).argmin
      (fun n => m.kernel.priority n.owner) = some n) :
    LocalStep cfg m a c t (.next b) (.wake s n (m.waits n.owner))
      (m.goto m.kernel t (.wake s n (m.waits n.owner)))
  | wake {b : Bool} {s : SignalCall} {n : NodeRef} {wait : Nat}
    (hpc : m.fiber t = .wake s n wait) (hheld : n.slot < (a.phase n.owner).held.length) :
    LocalStep cfg m a c t (.next b) (.tryWin s n wait n.owner n.owner n.slot)
      (m.goto m.kernel t (.tryWin s n wait n.owner n.owner n.slot))
  | lost {b : Bool} {s : SignalCall} {n : NodeRef} {wait i : Nat} {tcb g : ThreadRef}
    (hpc : m.fiber t = .tryWin s n wait tcb g i) (hdone : m.kernel.done g = true) :
    LocalStep cfg m a c t (.next b) (if s.all then .pick s else s.ret)
      (m.signalNext m.kernel c t s)
  | evaluate {b : Bool} {ws : List WaitableRef} {p : Predicate}
    (hpc : m.fiber t = .evaluate ws p) (hholds : m.holds b p = true) :
    LocalStep cfg m a c t (.next b) .user (m.goto m.kernel t .user)
  | commence {b : Bool} {ws : List WaitableRef} {p : Option Predicate}
    (hpc : m.fiber t = .commence ws p) :
    LocalStep cfg m a c t (.next b) (.waitReturn ws p) (m.pend m.kernel c t (.waitReturn ws p))
  | waitReturn {b : Bool} {ws : List WaitableRef} {p : Option Predicate}
    (hpc : m.fiber t = .waitReturn ws p) :
    LocalStep cfg m a c t (.next b) (.afterWait ws p) (m.waitReturn t ws p)
  | spin {b : Bool} {l : Nat} (hpc : m.fiber t = .spin l) :
    LocalStep cfg m a c t (.next b) (if m.kernel.spinlocks l then .spin l else .user) (m.spin t l)
  | unregisterIdle {b : Bool} (hpc : m.fiber t = .unregister)
    (hid : (m.kernel.tcbs t).id = idleThreadId) :
    LocalStep cfg m a c t (.next b) .finished (m.pend m.kernel c t .finished)
  | unregister {b : Bool} (hpc : m.fiber t = .unregister)
    (hid : (m.kernel.tcbs t).id ≠ idleThreadId) (hpos : m.kernel.activeThreads ≠ 0) :
    LocalStep cfg m a c t (.next b) .threadExit
      { m.goto { m.kernel with activeThreads := m.kernel.activeThreads - 1 } t .threadExit with
        unregisters := Function.update m.unregisters t (m.unregisters t + 1) }
  | threadExit {b : Bool} (hpc : m.fiber t = .threadExit) (hpos : m.kernel.activeContexts ≠ 0) :
    LocalStep cfg m a c t (.next b) .finished
      { m.pend { m.kernel with activeContexts := m.kernel.activeContexts - 1 } c t .finished with
        exits := Function.update m.exits t (m.exits t + 1) }

/-- What the local steps have in common. -/
structure LocalFrame (m : Machine) (c : Nat) (t : ThreadRef) (pc : ThreadPc) (m' : Machine) :
    Prop where
  kernel : Kernel.Same m.kernel m'.kernel
  fiber : m'.fiber = Function.update m.fiber t pc
  waits : m'.waits = m.waits
  core : m'.core = m.core ∨ m'.core = Function.update m.core c .pump ∧ pc.suspended = true

theorem LocalFrame.goto {k : Kernel} (hk : Kernel.Same m.kernel k) (c : Nat) (t : ThreadRef)
    (pc : ThreadPc) : LocalFrame m c t pc (m.goto k t pc) :=
  ⟨hk, rfl, rfl, .inl rfl⟩

theorem LocalFrame.pend {k : Kernel} (hk : Kernel.Same m.kernel k) (c : Nat) (t : ThreadRef)
    {pc : ThreadPc} (hpc : pc.suspended = true) : LocalFrame m c t pc (m.pend k c t pc) :=
  ⟨hk, rfl, rfl, .inr ⟨rfl, hpc⟩⟩

theorem SignalCall.ret_suspended (s : SignalCall) : s.ret.suspended = true := by
  rw [SignalCall.ret]
  split <;> rfl

theorem LocalFrame.signalReturn {k : Kernel} (hk : Kernel.Same m.kernel k) (c : Nat)
    (t : ThreadRef) (s : SignalCall) : LocalFrame m c t s.ret (m.signalReturn k c t s) := by
  rw [Machine.signalReturn]
  split
  · exact .pend hk c t s.ret_suspended
  · exact .goto hk c t s.ret

theorem LocalFrame.signalNext {k : Kernel} (hk : Kernel.Same m.kernel k) (c : Nat)
    (t : ThreadRef) (s : SignalCall) :
    LocalFrame m c t (if s.all then .pick s else s.ret) (m.signalNext k c t s) := by
  rw [Machine.signalNext]
  split
  · exact .goto hk c t (.pick s)
  · exact .signalReturn hk c t s

theorem LocalStep.frame {act : Act} {pc : ThreadPc} (h : LocalStep cfg m a c t act pc m') :
    LocalFrame m c t pc m' := by
  have hstay : ∀ {pc : ThreadPc}, m.fiber t = pc → Function.update m.fiber t pc = m.fiber :=
    fun {pc} hpc => hpc ▸ Function.update_eq_self t m.fiber
  cases h with
  | yield hpc => exact .pend (.refl _) c t rfl
  | signal hpc hact => exact .goto (.refl _) c t _
  | waitUntil hpc hpos hlen => exact ⟨.refl _, rfl, rfl, .inl rfl⟩
  | waitSkip hpc => exact ⟨.refl _, (hstay hpc).symm, rfl, .inl rfl⟩
  | lock hpc =>
    refine ⟨⟨rfl, rfl, rfl, rfl, rfl, ?_, ?_, ?_, ?_⟩, rfl, rfl, .inl rfl⟩ <;> intro d <;>
      by_cases hd : d = c <;>
      simp [Machine.goto, Scheduler.disablePreemption, Kernel.modifySched, hd]
  | tryLock hpc => exact ⟨⟨rfl, rfl, rfl, rfl, rfl, fun _ => rfl, fun _ => rfl, fun _ => rfl,
      fun _ => rfl⟩, (hstay hpc).symm, rfl, .inl rfl⟩
  | @unlock l k hpc hk =>
    refine ⟨?_, (hstay hpc).symm, rfl, .inl rfl⟩
    obtain ⟨-, rfl⟩ := Scheduler.enablePreemption_ok.mp hk
    refine ⟨rfl, rfl, rfl, rfl, rfl, ?_, ?_, ?_, ?_⟩ <;> intro d <;>
      by_cases hd : d = c <;> simp [Kernel.modifySched, hd]
  | idle hpc => exact .pend (.refl _) c t rfl
  | pickNone hpc hnone => exact .signalReturn (.refl _) c t _
  | pickSome hpc hbest => exact .goto (.refl _) c t _
  | wake hpc hheld => exact .goto (.refl _) c t _
  | lost hpc hdone => exact .signalNext (.refl _) c t _
  | evaluate hpc hholds => exact .goto (.refl _) c t _
  | commence hpc => exact .pend (.refl _) c t rfl
  | @waitReturn b ws p hpc => cases p <;> exact ⟨.refl _, rfl, rfl, .inl rfl⟩
  | @spin b l hpc =>
    rw [Machine.spin]
    split
    · exact ⟨.refl _, (hstay hpc).symm, rfl, .inl rfl⟩
    · exact ⟨⟨rfl, rfl, rfl, rfl, rfl, fun _ => rfl, fun _ => rfl, fun _ => rfl, fun _ => rfl⟩,
        rfl, rfl, .inl rfl⟩
  | unregisterIdle hpc hid => exact .pend (.refl _) c t rfl
  | unregister hpc hid hpos =>
    exact ⟨⟨rfl, rfl, rfl, rfl, rfl, fun _ => rfl, fun _ => rfl, fun _ => rfl, fun _ => rfl⟩,
      rfl, rfl, .inl rfl⟩
  | threadExit hpc hpos =>
    exact ⟨⟨rfl, rfl, rfl, rfl, rfl, fun _ => rfl, fun _ => rfl, fun _ => rfl, fun _ => rfl⟩,
      rfl, rfl, .inr ⟨rfl, rfl⟩⟩

theorem SignalCall.ret_exiting (s : SignalCall) : s.ret.exiting = s.exiting := by
  rw [SignalCall.ret]
  cases s.exiting <;> rfl

theorem SignalCall.ret_cases (s : SignalCall) : s.ret = .user ∨ s.ret = .unregister := by
  rw [SignalCall.ret]
  split
  · exact .inr rfl
  · exact .inl rfl

/-- The points a local step goes between: neither acts on another thread, both
or none are in the exit sequence, and only `commence` leaves a block. -/
structure LocalPoints (m : Machine) (t : ThreadRef) (pc : ThreadPc) : Prop where
  claim : (m.fiber t).claim = none
  claim' : pc.claim = none
  exiting : pc.exiting = (m.fiber t).exiting
  idle : pc = .idle ↔ m.fiber t = .idle
  terminate : m.fiber t ≠ .terminate
  terminate' : pc ≠ .terminate
  commence' : ∀ ws p, pc ≠ .commence ws p

theorem LocalStep.points {act : Act} {pc : ThreadPc} (h : LocalStep cfg m a c t act pc m') :
    LocalPoints m t pc := by
  cases h with
  | pickNone hpc hnone =>
    rename_i b s
    have := s.ret_exiting
    rcases s.ret_cases with hr | hr <;>
      constructor <;> simp_all [ThreadPc.claim, ThreadPc.exiting]
  | lost hpc hdone =>
    rename_i b s n wait i tcb g
    have := s.ret_exiting
    cases hall : s.all <;> rcases s.ret_cases with hr | hr <;>
      constructor <;> simp_all [ThreadPc.claim, ThreadPc.exiting]
  | waitReturn hpc =>
    rename_i b ws p
    cases p <;> constructor <;> simp [hpc, ThreadPc.claim, ThreadPc.exiting, ThreadPc.afterWait]
  | spin hpc =>
    rename_i b l
    cases hl : m.kernel.spinlocks l <;>
      constructor <;> simp [hpc, ThreadPc.claim, ThreadPc.exiting]
  | _ => constructor <;> simp [*, ThreadPc.claim, ThreadPc.exiting]

/-- A thread whose launcher has ended makes no local step. -/
theorem LocalStep.not_finished {act : Act} {pc : ThreadPc}
    (hs : LocalStep cfg m a c t act pc m') : m.fiber t ≠ .finished := by
  intro hfin
  cases hs <;> simp_all

/-- The data a local step puts into its next point is consistent. -/
theorem LocalStep.consistent (h : Sim cfg m a) {act : Act} {pc : ThreadPc}
    (hs : LocalStep cfg m a c t act pc m') : pc.Consistent cfg m.waits := by
  have hcons := (h.thread t).consistent
  cases hs with
  | waitUntil hpc hpos hlen => exact ⟨hpos, hlen⟩
  | pickSome hpc hbest =>
    rename_i b s n
    have hmem : n ∈ a.waiters s.waitable := List.mem_of_mem_filter (List.argmin_mem hbest)
    have hheld := (h.waiting.mem s.waitable n).mp hmem
    have hblocked : (a.phase n.owner).state = .blocked := by
      cases hp : a.phase n.owner <;> simp_all [Phase.held, Phase.state]
    exact ⟨(h.thread n.owner).waits_pos hblocked, Nat.le_refl _⟩
  | wake hpc hheld =>
    rw [hpc] at hcons
    exact ⟨hcons.1, hcons.2, rfl, rfl⟩
  | commence hpc =>
    rw [hpc] at hcons
    exact hcons
  | waitReturn hpc =>
    rename_i b ws p
    rw [hpc] at hcons
    cases p with
    | none => trivial
    | some p => exact hcons
  | pickNone hpc hnone =>
    rename_i b s
    rcases s.ret_cases with hr | hr <;> rw [hr] <;> trivial
  | lost hpc hdone =>
    rename_i b s n wait i tcb g
    cases s.all
    · rcases s.ret_cases with hr | hr <;> simp [hr, ThreadPc.Consistent]
    · trivial
  | spin hpc =>
    split <;> trivial
  | _ => trivial

/-- A blocked thread goes off its core. -/
theorem LocalStep.of_commence {act : Act} {pc : ThreadPc} (hs : LocalStep cfg m a c t act pc m')
    {ws : List WaitableRef} {p : Option Predicate} (hcom : m.fiber t = .commence ws p) :
    pc = .waitReturn ws p ∧ m' = m.pend m.kernel c t (.waitReturn ws p) := by
  cases hs with
  | commence hpc =>
    rw [hcom] at hpc
    cases hpc
    exact ⟨rfl, rfl⟩
  | _ => simp_all

theorem LocalStep.sim (h : Sim cfg m a) (hcore : m.core c = .thread)
    (hcur : m.kernel.current c = some t) {act : Act} {pc : ThreadPc}
    (hs : LocalStep cfg m a c t act pc m') : Sim cfg m' a := by
  by_cases hcom : ∃ ws p, m.fiber t = .commence ws p
  · obtain ⟨ws, p, hcom⟩ := hcom
    obtain ⟨rfl, rfl⟩ := hs.of_commence hcom
    have hadm := (h.thread t).admits
    have hcons := (h.thread t).consistent
    rw [hcom] at hcons hadm
    have hadm' : (a.phase t).admits (.waitReturn ws p) = true := by
      cases hph : a.phase t <;>
        simp_all [Phase.admits, ThreadPc.blockedOn, ThreadPc.suspended, ThreadPc.exiting]
    refine h.move hcore hcur (.refl _) rfl rfl (.inr ⟨rfl, rfl⟩) hadm' hcons ?_ ?_ ?_ <;>
      simp [hcom, ThreadPc.claim]
  · have hf := hs.frame
    have hp := hs.points
    have hnc : ∀ ws p, m.fiber t ≠ .commence ws p := fun ws p he => hcom ⟨ws, p, he⟩
    have hnb : (a.phase t).state ≠ .blocked := by
      rcases h.acting_phase hcore hcur with ⟨hr, -⟩ | ⟨-, ws, p, he⟩ | ⟨hr, -⟩
      · simp [hr, Phase.state]
      · exact absurd he (hnc ws p)
      · simp [hr, Phase.state]
    have hdep : Departs m m' c (a.phase t) pc := by
      rcases hf.core with hc | hc
      · exact .inl ⟨hc, fun hb => absurd hb hnb⟩
      · exact .inr hc
    exact h.move hcore hcur hf.kernel hf.fiber hf.waits hdep
      (h.admits_move hcore hcur hnc hp.commence' hp.exiting) (hs.consistent h)
      (hp.claim'.trans hp.claim.symm) hp.idle (iff_of_false hp.terminate' hp.terminate)

/-! ## All steps -/

/-- Where thread `t` goes after it has readied `x`, leaving kernel state `k`;
`resched` says that `x` is more urgent than the current thread. -/
inductive AfterReady (m : Machine) (c : Nat) (t : ThreadRef) (k : Kernel) (resched : Bool) :
    ThreadRef → Claim → ThreadPc → Machine → Prop
  | register {x : ThreadRef} (hpc : m.fiber t = .register x) :
    AfterReady m c t k resched x .makeReady .user
      (if resched then m.pend k c t .user else m.goto k t .user)
  | setReady {x : ThreadRef} {s s' : SignalCall} (hpc : m.fiber t = .setReady s x)
    (hs : s' = { s with reschedule := s.reschedule || resched }) :
    AfterReady m c t k resched x .wakeUp (if s.all then .pick s' else s.ret)
      (m.signalNext k c t s')

/-- The moves of a scheduler fiber that change nothing else. -/
inductive CoreMove (cfg : Config) (m : Machine) (c : Nat) : CorePc → Prop
  | pump (hpc : m.core c = .pump) (hlive : cfg.cores < m.kernel.activeContexts) :
    CoreMove cfg m c .reschedule
  | halt (hpc : m.core c = .pump) (hdone : m.kernel.activeContexts ≤ cfg.cores) :
    CoreMove cfg m c .halted
  | reschedule (hpc : m.core c = .reschedule) : CoreMove cfg m c .drain
  | drained (hpc : m.core c = .drain) : CoreMove cfg m c .switch

/-- Scheduler fibers move when their core is not in the fiber of a thread. -/
theorem CoreMove.core {pc : CorePc} (h : CoreMove cfg m c pc) :
    m.core c ≠ .boot ∧ m.core c ≠ .thread := by
  cases h with
  | pump hpc | halt hpc | reschedule hpc | drained hpc => simp [hpc]

theorem CoreMove.ne_switch {pc : CorePc} (h : CoreMove cfg m c pc) : m.core c ≠ .switch := by
  cases h with
  | pump hpc | halt hpc | reschedule hpc | drained hpc => simp [hpc]

/-- The steps of the system, concretely and abstractly. -/
inductive Trans (cfg : Config) (m : Machine) (a : Life) : Label → Machine → Life → Prop
  | constructBoot {priority : UInt8} {affinity : BitVec 32} {d : Nat}
    (hrun : m.kernel.isRunning = false) (hd : d < cfg.cores)
    (hprio : priority.toNat < cfg.maxPriorities) :
    Trans cfg m a (.construct priority affinity)
      { m with
        kernel :=
          (m.kernel.constructed cfg priority affinity d).makeReady d (.user m.kernel.threads) }
      (a.enqueue d ((m.kernel.constructed cfg priority affinity d).priority
        (.user m.kernel.threads)) (.user m.kernel.threads))
  | start (hrun : m.kernel.isRunning = false) (hpos : 0 < m.kernel.activeThreads) :
    Trans cfg m a .start { m with kernel := { m.kernel with isRunning := true } } a
  | thread {c : Nat} {t : ThreadRef} {act : Act} {pc : ThreadPc} {m' : Machine}
    (hcore : m.core c = .thread) (hcur : m.kernel.current c = some t)
    (hs : LocalStep cfg m a c t act pc m') : Trans cfg m a (.core c act) m' a
  | construct {c : Nat} {t : ThreadRef} {priority : UInt8} {affinity : BitVec 32} {d : Nat}
    (hcore : m.core c = .thread) (hcur : m.kernel.current c = some t)
    (hpc : m.fiber t = .user) (hd : d < cfg.cores)
    (hprio : priority.toNat < cfg.maxPriorities) :
    Trans cfg m a (.core c (.construct priority affinity))
      (m.goto (m.kernel.constructed cfg priority affinity d) t
        (.register (.user m.kernel.threads)))
      (a.setPhase (.user m.kernel.threads) (.pinned t))
  | block {c : Nat} {t : ThreadRef} {act : Act} {ws : List WaitableRef} {p : Option Predicate}
    {links : Links WaitableRef NodeRef}
    (hcore : m.core c = .thread) (hcur : m.kernel.current c = some t)
    (hpc : m.fiber t = .user ∧ p = none ∨ ∃ q, m.fiber t = .evaluate ws q ∧ p = some q)
    (hpos : 0 < ws.length) (hlen : ws.length ≤ cfg.maxWaitNodes) (hnd : ws.Nodup)
    (hsim : Sim cfg { m.goto (m.kernel.blockOn cfg t ws links) t (.commence ws p) with
      waits := Function.update m.waits t (m.waits t + 1) } (a.block t ws)) :
    Trans cfg m a (.core c act)
      { m.goto (m.kernel.blockOn cfg t ws links) t (.commence ws p) with
        waits := Function.update m.waits t (m.waits t + 1) }
      (a.block t ws)
  | ret {c : Nat} {t : ThreadRef} (hcore : m.core c = .thread)
    (hcur : m.kernel.current c = some t) (hpc : m.fiber t = .user) :
    Trans cfg m a (.core c .ret) (m.goto (m.kernel.setState t .terminated) t .terminate)
      (a.setPhase t .dead)
  | terminate {c : Nat} {t : ThreadRef} {b : Bool} (hcore : m.core c = .thread)
    (hcur : m.kernel.current c = some t) (hpc : m.fiber t = .terminate) :
    Trans cfg m a (.core c (.next b))
      (m.goto (m.kernel.modifyTcb t fun b => { b with terminated := true }) t
        (.pick ⟨.termination t, false, true, false, true⟩)) a
  | win {c : Nat} {t : ThreadRef} {b : Bool} {s : SignalCall} {n : NodeRef} {wait i : Nat}
    {ws : List WaitableRef} (hcore : m.core c = .thread) (hcur : m.kernel.current c = some t)
    (hpc : m.fiber t = .tryWin s n wait n.owner n.owner i)
    (hx : a.phase n.owner = .waiting ws) :
    Trans cfg m a (.core c (.next b))
      (m.goto (m.kernel.win n.owner i s.acquired) t (.teardown s n.owner n.owner))
      (a.setPhase n.owner (.won t ws))
  | tearDown {c : Nat} {t x : ThreadRef} {b : Bool} {s : SignalCall} {ws : List WaitableRef}
    {links : Links WaitableRef NodeRef} (hcore : m.core c = .thread)
    (hcur : m.kernel.current c = some t) (hpc : m.fiber t = .teardown s x x)
    (hx : a.phase x = .won t ws)
    (hsim : Sim cfg (m.goto (m.kernel.setPool x (poolFor cfg.maxWaitNodes x []) links) t
      (.setReady s x)) (a.tearDown t x)) :
    Trans cfg m a (.core c (.next b))
      (m.goto (m.kernel.setPool x (poolFor cfg.maxWaitNodes x []) links) t (.setReady s x))
      (a.tearDown t x)
  | ready {c : Nat} {t x : ThreadRef} {b : Bool} {κ : Claim} {pc : ThreadPc} {m' : Machine}
    (hcore : m.core c = .thread) (hcur : m.kernel.current c = some t)
    (hafter : AfterReady m c t (m.kernel.makeReady c x) (m.kernel.preempts c x) x κ pc m')
    (hpin : m.kernel.pinnedCore x = c) :
    Trans cfg m a (.core c (.next b)) m' (a.enqueue c (m.kernel.priority x) x)
  | post {c : Nat} {t x : ThreadRef} {b : Bool} {κ : Claim} {pc : ThreadPc} {m' : Machine}
    (hcore : m.core c = .thread) (hcur : m.kernel.current c = some t)
    (hafter : AfterReady m c t (m.kernel.post (m.kernel.pinnedCore x) x) false x κ pc m')
    (hpin : m.kernel.pinnedCore x ≠ c)
    (hroom : (m.kernel.schedulers (m.kernel.pinnedCore x)).inbox.length < inboxCap) :
    Trans cfg m a (.core c (.next b)) m' (a.setPhase x (a.phase x).afterPost)
  | boot {c : Nat} {b : Bool} {next : ThreadRef} {k : Kernel} {a' : Life}
    (hrun : m.kernel.isRunning = true) (hc : c < cfg.cores) (hcore : m.core c = .boot)
    (hpop : Scheduler.popNext m.kernel c = .ok (next, k)) (hsel : a.Selects c next a')
    (hsim : Sim cfg (m.coreGoto (Scheduler.dispatch k c next) c .thread) a') :
    Trans cfg m a (.core c (.next b)) (m.coreGoto (Scheduler.dispatch k c next) c .thread) a'
  | coreMove {c : Nat} {b : Bool} {pc : CorePc} (hmove : CoreMove cfg m c pc) :
    Trans cfg m a (.core c (.next b)) (m.coreGoto m.kernel c pc) a
  | drainOne {c : Nat} {x : ThreadRef} {rest : List ThreadRef} (hcore : m.core c = .drain)
    (hin : (m.kernel.schedulers c).inbox = x :: rest) :
    Trans cfg m a (.core c (.next false)) { m with kernel := m.kernel.drained c x rest }
      (a.enqueue c (m.kernel.priority x) x)
  | switch {c : Nat} {t next : ThreadRef} {b : Bool} {k : Kernel} {a' : Life}
    (hc : c < cfg.cores) (hcore : m.core c = .switch) (hcur : m.kernel.current c = some t)
    (hnr : a.phase t ≠ .ready)
    (hpop : Scheduler.popNext (m.kernel.rotated c t) c = .ok (next, k))
    (hsel : (a.rotated c (m.kernel.priority t) t).Selects c next a')
    (hsim : Sim cfg (m.coreGoto (Scheduler.dispatch k c next) c .thread) a') :
    Trans cfg m a (.core c (.next b)) (m.coreGoto (Scheduler.dispatch k c next) c .thread) a'

/-! ### They keep the relation -/

/-- What the two places that ready a thread have in common. -/
structure ReadyFrame (cfg : Config) (m : Machine) (c : Nat) (t : ThreadRef) (k : Kernel)
    (x : ThreadRef) (κ : Claim) (pc : ThreadPc) (m' : Machine) : Prop where
  kernel : m'.kernel = k
  fiber : m'.fiber = Function.update m.fiber t pc
  waits : m'.waits = m.waits
  core : m'.core = m.core ∨ m'.core = Function.update m.core c .pump ∧ pc.suspended = true
  claim : (m.fiber t).claim = some (x, κ)
  claim_ne : κ ≠ .tearDown
  claim' : pc.claim = none
  exiting : pc.exiting = (m.fiber t).exiting
  commence' : ∀ ws p, pc ≠ .commence ws p
  consistent : pc.Consistent cfg m.waits
  idle' : pc ≠ .idle
  terminate' : pc ≠ .terminate

/-- A thread that readies another one has not finished. -/
theorem ReadyFrame.not_finished {k : Kernel} {κ : Claim} {pc : ThreadPc}
    (hf : ReadyFrame cfg m c t k x κ pc m') : m.fiber t ≠ .finished := by
  intro hfin
  have hclaim := hf.claim
  rw [hfin] at hclaim
  cases hclaim

theorem AfterReady.frame {k : Kernel} {resched : Bool} {κ : Claim} {pc : ThreadPc}
    (h : AfterReady m c t k resched x κ pc m') : ReadyFrame cfg m c t k x κ pc m' := by
  cases h with
  | register hpc =>
    cases resched <;> constructor <;> simp [Machine.goto, Machine.pend, hpc, ThreadPc.claim,
      ThreadPc.exiting, ThreadPc.suspended, ThreadPc.Consistent]
  | setReady hpc hs =>
    rename_i s s'
    have hret : s'.ret = s.ret := by rw [hs]; rfl
    have hex := s.ret_exiting
    cases hall : s.all <;> cases hres : s'.reschedule <;> rcases s.ret_cases with hr | hr <;>
      constructor <;> simp_all [Machine.signalNext, Machine.signalReturn, Machine.goto,
        Machine.pend, ThreadPc.claim, ThreadPc.exiting, ThreadPc.suspended, ThreadPc.Consistent]

/-- The readying thread is not blocked, so it may go where it goes. -/
theorem ReadyFrame.departs (h : Sim cfg m a) (hcore : m.core c = .thread)
    (hcur : m.kernel.current c = some t) {k : Kernel} {κ : Claim} {pc : ThreadPc}
    (hf : ReadyFrame cfg m c t k x κ pc m') :
    Departs m m' c (a.phase t) pc ∧ (a.phase t).admits pc = true := by
  have hnc : ∀ ws p, m.fiber t ≠ .commence ws p := fun ws p he => by
    have := hf.claim
    rw [he] at this
    cases this
  refine ⟨?_, h.admits_move hcore hcur hnc hf.commence' hf.exiting⟩
  rcases hf.core with hc | hc
  · refine .inl ⟨hc, fun hb => ?_⟩
    rcases h.acting_phase hcore hcur with ⟨hr, -⟩ | ⟨-, ws, p, he⟩ | ⟨hr, -⟩
    · simp [hr, Phase.state] at hb
    · exact absurd he (hnc ws p)
    · simp [hr, Phase.state] at hb
  · exact .inr hc

theorem Sim.ofCoreMove (h : Sim cfg m a) {pc : CorePc} (hmove : CoreMove cfg m c pc) :
    Sim cfg (m.coreGoto m.kernel c pc) a := by
  cases hmove with
  | pump hpc | halt hpc | reschedule hpc | drained hpc =>
    refine h.coreMove (by simp [hpc]) (by simp [hpc]) (by simp) (by simp) fun φ hφ => ?_
    cases φ <;> simp_all [Phase.onCore]

/-- **Steps keep the simulation relation.** -/
theorem Trans.sim (h : Sim cfg m a) {l : Label} (ht : Trans cfg m a l m' a') : Sim cfg m' a' := by
  cases ht with
  | constructBoot hrun hd hprio => exact (h.constructBoot hprio hd rfl rfl).2
  | start hrun hpos =>
    exact ⟨h.ready.congr rfl fun _ => rfl, h.queued, h.waiting.congr rfl fun _ => rfl,
      fun u => (h.thread u).frame rfl rfl rfl (fun _ => Nat.le_refl _) Iff.rfl fun _ => id,
      h.born, h.idle, h.boot, h.current, h.inbox, h.claims⟩
  | thread hcore hcur hs => exact hs.sim h hcore hcur
  | construct hcore hcur hpc hd hprio => exact h.construct hcore hcur hpc hprio hd
  | block hcore hcur hpc hpos hlen hnd hsim => exact hsim
  | ret hcore hcur hpc => exact h.ret hcore hcur hpc
  | terminate hcore hcur hpc => exact h.terminate hcore hcur hpc rfl
  | win hcore hcur hpc hx => exact h.win hcore hcur hpc hx
  | tearDown hcore hcur hpc hx hsim => exact hsim
  | ready hcore hcur hafter hpin =>
    have hf : ReadyFrame cfg _ _ _ _ _ _ _ _ := hafter.frame
    obtain ⟨hdep, hadm⟩ := hf.departs h hcore hcur
    exact h.makeReady hcore hcur hf.claim hf.claim_ne hpin hf.kernel hf.fiber hf.waits hdep
      hf.claim' hadm hf.consistent hf.idle' hf.terminate'
  | post hcore hcur hafter hpin hroom =>
    have hf : ReadyFrame cfg _ _ _ _ _ _ _ _ := hafter.frame
    obtain ⟨hdep, hadm⟩ := hf.departs h hcore hcur
    exact h.post hcore hcur hf.claim hf.claim_ne hpin hf.kernel hf.fiber hf.waits hdep
      hf.claim' hadm hf.consistent hf.idle' hf.terminate'
  | boot hrun hc hcore hpop hsel hsim => exact hsim
  | coreMove hmove => exact h.ofCoreMove hmove
  | drainOne hcore hin => exact (h.drainOne hcore hin).2
  | switch hc hcore hcur hnr hpop hsel hsim => exact hsim

/-! ## Every step is one of these -/

/-- The label constructs threads only with priorities the ready matrix has. -/
def Label.Valid (cfg : Config) : Label → Prop
  | .construct priority _ | .core _ (.construct priority _) => priority.toNat < cfg.maxPriorities
  | _ => True

/-- The assertions that a run can fail: misuse by the application (no threads,
no allowed core, bad wait lists, unlocking twice), a full inbox, a counter that
has wrapped, and two that the kernel brings on itself: a node torn down between
`pick_best` and `wake_thread`, and a thread readied while it is switched out. -/
def Panic.mayFail : Panic → Bool
  | startNoThreads | affinityAllowsNoCore | waitNoWaitables | waitTooManyWaitables
  | groupNotUnique | preemptNotDisabled | setReadyNotPosted | unregisterNoThreads
  | exitNoContexts | wakeNoGroup | reschedUnreachable => true
  | _ => false

/-- The result of the step `l` is one of the listed steps or failures. -/
def Outcome (cfg : Config) (m : Machine) (a : Life) (l : Label) : Except Fault Machine → Prop
  | .ok m' => ∃ a', Trans cfg m a l m' a'
  | .error .disabled => True
  | .error (.panic p) => p.mayFail = true

/-- The kernel's `set_thread_ready`, called by the thread that has claimed `x`. -/
theorem Sim.setThreadReady (h : Sim cfg m a) (hrun : m.kernel.isRunning = true)
    (hcore : m.core c = .thread) (hcur : m.kernel.current c = some t) {κ : Claim}
    (hclaim : (m.fiber t).claim = some (x, κ)) (hκ : κ ≠ .tearDown) :
    (m.kernel.pinnedCore x = c ∧ m.kernel.setThreadReady cfg c x =
        .ok (if m.kernel.preempts c x then .reschedule else .none, m.kernel.makeReady c x)) ∨
      (m.kernel.pinnedCore x ≠ c ∧
        m.kernel.setThreadReady cfg c x =
          if (m.kernel.schedulers (m.kernel.pinnedCore x)).inbox.length < inboxCap then
            .ok (.none, m.kernel.post (m.kernel.pinnedCore x) x)
          else .error .setReadyNotPosted) := by
  obtain ⟨-, hidle, hcase⟩ := h.claimed hcore hcur hclaim hκ
  have hxok := h.thread x
  have hst : m.kernel.state x ≠ .terminated := by
    rw [hxok.state]
    rcases hcase with ⟨hx, -⟩ | ⟨hx, -⟩ <;> simp [hx, Phase.state]
  have hnr : a.phase x ≠ .ready := by
    rcases hcase with ⟨hx, -⟩ | ⟨hx, -⟩ <;> simp [hx]
  by_cases hpin : m.kernel.pinnedCore x = c
  · refine .inl ⟨hpin, Kernel.setThreadReady_own hrun hst hpin ?_ hxok.priority_lt
      (h.ready.links.not_isEnqueued (h.not_queued hnr))⟩
    rw [(h.idle c).1]
    rintro hx
    rw [← Option.some.inj hx] at hidle
    cases hidle
  · exact .inr ⟨hpin, Kernel.setThreadReady_remote hrun hst hpin⟩

theorem Sim.register_outcome (h : Sim cfg m a) (hrun : m.kernel.isRunning = true)
    (hcore : m.core c = .thread) (hcur : m.kernel.current c = some t) (b : Bool)
    (hpc : m.fiber t = .register x) :
    Outcome cfg m a (.core c (.next b)) (check (m.register cfg c t x)) := by
  rcases h.setThreadReady hrun hcore hcur (x := x) (κ := .makeReady) (by rw [hpc]; rfl) (by simp)
    with ⟨hpin, hset⟩ | ⟨hpin, hset⟩
  · have htrans : Trans cfg m a (.core c (.next b)) _ _ := .ready hcore hcur (.register hpc) hpin
    rw [Machine.register, hset]
    cases hp : m.kernel.preempts c x <;> rw [hp] at htrans <;> exact ⟨_, htrans⟩
  · rw [Machine.register, hset]
    split
    · next hroom => exact ⟨_, .post hcore hcur (.register hpc) hpin hroom⟩
    · exact rfl

theorem Sim.setReady_outcome (h : Sim cfg m a) (hrun : m.kernel.isRunning = true)
    (hcore : m.core c = .thread) (hcur : m.kernel.current c = some t) (b : Bool) {s : SignalCall}
    (hpc : m.fiber t = .setReady s x) :
    Outcome cfg m a (.core c (.next b)) (check (m.setReady cfg c t s x)) := by
  rcases h.setThreadReady hrun hcore hcur (x := x) (κ := .wakeUp) (by rw [hpc]; rfl) (by simp)
    with ⟨hpin, hset⟩ | ⟨hpin, hset⟩
  · have htrans : Trans cfg m a (.core c (.next b)) _ _ :=
      .ready hcore hcur (.setReady hpc rfl) hpin
    rw [Machine.setReady, hset]
    cases hp : m.kernel.preempts c x <;> rw [hp] at htrans
    · rw [Bool.or_false] at htrans
      exact ⟨_, htrans⟩
    · rw [Bool.or_true] at htrans
      exact ⟨_, htrans⟩
  · rw [Machine.setReady, hset]
    split
    · next hroom =>
      refine ⟨_, .post hcore hcur (.setReady hpc ?_) hpin hroom⟩
      rw [Bool.or_false]
    · exact rfl

theorem Sim.pick_outcome (h : Sim cfg m a) (hcore : m.core c = .thread)
    (hcur : m.kernel.current c = some t) (b : Bool) {s : SignalCall} (hpc : m.fiber t = .pick s) :
    Outcome cfg m a (.core c (.next b)) (check (m.pick cfg c t s)) := by
  have hthreads : ∀ u, (a.phase u).held ≠ [] → ∃ i < m.kernel.threads, u = .user i := by
    intro u hu
    cases u with
    | idle d =>
      rcases (h.idle d).2.2 with ⟨hp, -⟩ | ⟨hp | hp, -⟩ <;> simp [hp, Phase.held] at hu
    | user i =>
      refine ⟨i, Nat.lt_of_not_le fun hle => ?_, rfl⟩
      rw [(h.born i).mpr hle] at hu
      exact hu rfl
  have hpick := h.waiting.pickBest hthreads s.waitable
  rw [Machine.pick, hpick]
  cases hbest : (WaitRep.eligible m.kernel (a.waiters s.waitable)).argmin
      fun n => m.kernel.priority n.owner with
  | none => exact ⟨_, .thread hcore hcur (.pickNone hpc (List.argmin_eq_none.mp hbest))⟩
  | some n => exact ⟨_, .thread hcore hcur (.pickSome hpc hbest)⟩

/-- `wake_thread` on a node that is in use passes its assertions. -/
theorem Sim.wake_ok (h : Sim cfg m a) (t : ThreadRef) (s : SignalCall) {n : NodeRef} (wait : Nat)
    (hlt : n.slot < (a.phase n.owner).held.length) :
    m.wake t s n wait = .ok (m.goto m.kernel t (.tryWin s n wait n.owner n.owner n.slot)) := by
  have hst : m.kernel.state n.owner = .blocked := by
    rw [(h.thread n.owner).state]
    cases hp : a.phase n.owner <;> simp_all [Phase.held, Phase.state]
  have hidx : (n.slot != invalidIndex) = true := by
    have := h.waiting.bound n.owner
    have := cfg.waitNodes_le
    rw [bne_iff_ne, invalidIndex]
    omega
  simp [Machine.wake, h.waiting.node_eq n, nodeFor, hlt, hidx, hst, pure, Except.pure]

theorem Sim.wake_outcome (h : Sim cfg m a) (hcore : m.core c = .thread)
    (hcur : m.kernel.current c = some t) (b : Bool) {s : SignalCall} {n : NodeRef} {wait : Nat}
    (hpc : m.fiber t = .wake s n wait) :
    Outcome cfg m a (.core c (.next b)) (check (m.wake t s n wait)) := by
  by_cases hlt : n.slot < (a.phase n.owner).held.length
  · rw [h.wake_ok t s wait hlt]
    exact ⟨_, .thread hcore hcur (.wake hpc hlt)⟩
  · have hwake : m.wake t s n wait = .error .wakeNoGroup := by
      simp [Machine.wake, h.waiting.node_eq n, nodeFor, hlt]
    rw [hwake]
    exact rfl

theorem Sim.tryWin_outcome (h : Sim cfg m a) (hcore : m.core c = .thread)
    (hcur : m.kernel.current c = some t) (b : Bool) {s : SignalCall} {n : NodeRef} {wait i : Nat}
    {tcb g : ThreadRef} (hpc : m.fiber t = .tryWin s n wait tcb g i) :
    Outcome cfg m a (.core c (.next b)) (.ok (m.tryWin c t s tcb g i)) := by
  have hcons := (h.thread t).consistent
  rw [hpc] at hcons
  obtain ⟨hpos, hle, rfl, rfl⟩ := hcons
  rw [Machine.tryWin]
  split
  · next hdone => exact ⟨_, .thread hcore hcur (.lost hpc hdone)⟩
  · next hdone =>
    have hwait := ((h.thread n.owner).done_waiting (by simpa using hdone)).resolve_right
      (by omega)
    obtain ⟨ws, hws⟩ : ∃ ws, a.phase n.owner = .waiting ws := by
      cases hp : a.phase n.owner <;> simp_all [Phase.isWaiting]
    exact ⟨_, .win hcore hcur hpc hws⟩

theorem Sim.teardown_outcome (h : Sim cfg m a) (hcore : m.core c = .thread)
    (hcur : m.kernel.current c = some t) (b : Bool) {s : SignalCall} {g : ThreadRef}
    (hpc : m.fiber t = .teardown s x g) :
    Outcome cfg m a (.core c (.next b)) (check (do
      let k ← m.kernel.teardownWaitGroup cfg x g
      return m.goto k t (.setReady s x))) := by
  have hcons := (h.thread t).consistent
  rw [hpc] at hcons
  cases hcons
  have hclaim := (h.claims x t .tearDown).mp (by rw [hpc]; rfl)
  obtain ⟨ws, hws⟩ : ∃ ws, a.phase x = .won t ws := by
    cases hp : a.phase x <;> simp_all [Phase.claim]
  obtain ⟨links, htear, hsim⟩ := h.tearDown hcore hcur hpc hws
  rw [htear]
  exact ⟨_, .tearDown hcore hcur hpc hws hsim⟩

/-- The group lock of a wait whose size has been checked. -/
theorem groupLock_cases {ws : List WaitableRef} (hlen : ws.length ≤ cfg.maxWaitNodes) :
    (ws.Nodup ∧ ∃ g, groupLock cfg ws = .ok g) ∨ groupLock cfg ws = .error .groupNotUnique := by
  by_cases hnd : ws.Nodup
  · exact .inl ⟨hnd, _, groupLock_ok.mpr ⟨⟨hlen, hnd⟩, rfl⟩⟩
  · right
    cases hg : groupLock cfg ws with
    | ok g => exact absurd (groupLock_ok.mp hg).1.2 hnd
    | error p =>
      rw [groupLock, decide_eq_true hlen, cortosAssert_bind_true] at hg
      cases hadj : adjacentDistinct (sortByAddress cfg ws) <;>
        simp_all [cortosAssert, bind, Except.bind, pure, Except.pure]

theorem Sim.evaluate_outcome (h : Sim cfg m a) (hcore : m.core c = .thread)
    (hcur : m.kernel.current c = some t) (b : Bool) {ws : List WaitableRef} {p : Predicate}
    (hpc : m.fiber t = .evaluate ws p) :
    Outcome cfg m a (.core c (.next b)) (check (m.evaluate cfg t ws p b)) := by
  have hcons := (h.thread t).consistent
  rw [hpc] at hcons
  obtain ⟨hpos, hlen⟩ := hcons
  rcases groupLock_cases hlen with ⟨hnd, g, hg⟩ | hg
  · rw [Machine.evaluate, hg, ok_bind]
    split
    · next hholds => exact ⟨_, .thread hcore hcur (.evaluate hpc hholds)⟩
    · have hrun : a.phase t = .running := by
        rcases h.acting_phase hcore hcur with hp | hp | hp <;> simp_all [ThreadPc.exiting]
      have hidle : t.isIdle = false := by simpa [hpc] using (h.thread t).idle_fiber
      obtain ⟨links, hblock, hsim⟩ := h.block hcore hcur hrun hidle (by rw [hpc]; rfl)
        (by simp [hpc]) (p := some p) hpos hlen hnd
      rw [hblock]
      exact ⟨_, .block hcore hcur (.inr ⟨p, hpc, rfl⟩) hpos hlen hnd hsim⟩
  · rw [Machine.evaluate, hg]
    exact rfl

theorem Sim.waitForAny_outcome (h : Sim cfg m a) (hcore : m.core c = .thread)
    (hcur : m.kernel.current c = some t) (hpc : m.fiber t = .user) (act : Act)
    (ws : List WaitableRef) :
    Outcome cfg m a (.core c act) (check (m.waitForAny cfg t ws)) := by
  rw [Machine.waitForAny]
  by_cases hpos : 0 < ws.length
  · rw [decide_eq_true hpos, cortosAssert_bind_true]
    by_cases hlen : ws.length ≤ cfg.maxWaitNodes
    · rw [decide_eq_true hlen, cortosAssert_bind_true]
      rcases groupLock_cases hlen with ⟨hnd, g, hg⟩ | hg
      · have hrun : a.phase t = .running := by
          rcases h.acting_phase hcore hcur with hp | hp | hp <;> simp_all [ThreadPc.exiting]
        have hidle : t.isIdle = false := by simpa [hpc] using (h.thread t).idle_fiber
        obtain ⟨links, hblock, hsim⟩ := h.block hcore hcur hrun hidle (by rw [hpc]; rfl)
          (by simp [hpc]) (p := none) hpos hlen hnd
        rw [hg, ok_bind, hblock]
        exact ⟨_, .block hcore hcur (.inl ⟨hpc, rfl⟩) hpos hlen hnd hsim⟩
      · rw [hg]
        exact rfl
    · rw [decide_eq_false hlen]
      exact rfl
  · rw [decide_eq_false hpos]
    exact rfl

theorem Sim.waitUntil_outcome (hcore : m.core c = .thread)
    (hcur : m.kernel.current c = some t) (hpc : m.fiber t = .user) (act : Act)
    (ws : List WaitableRef) (p : Predicate) (b : Bool) :
    Outcome cfg m a (.core c act) (check (m.waitUntil cfg t ws p b)) := by
  rw [Machine.waitUntil]
  by_cases hpos : 0 < ws.length
  · rw [decide_eq_true hpos, cortosAssert_bind_true]
    by_cases hlen : ws.length ≤ cfg.maxWaitNodes
    · rw [decide_eq_true hlen, cortosAssert_bind_true]
      cases m.holds b p
      · exact ⟨_, .thread hcore hcur (.waitUntil hpc hpos hlen)⟩
      · exact ⟨_, .thread hcore hcur (.waitSkip hpc)⟩
    · rw [decide_eq_false hlen]
      exact rfl
  · rw [decide_eq_false hpos]
    exact rfl

theorem Sim.unregister_outcome (hcore : m.core c = .thread)
    (hcur : m.kernel.current c = some t) (b : Bool) (hpc : m.fiber t = .unregister) :
    Outcome cfg m a (.core c (.next b)) (check (m.unregister c t)) := by
  rw [Machine.unregister]
  split
  · next hid => exact ⟨_, .thread hcore hcur (.unregisterIdle hpc hid)⟩
  · next hid =>
    by_cases hpos : m.kernel.activeThreads = 0
    · simp [Kernel.unregisterThread, hpos, cortosAssert, bind, Except.bind, check, Outcome,
        Panic.mayFail]
    · rw [Kernel.unregisterThread, bne_iff_ne.mpr hpos]
      exact ⟨_, .thread hcore hcur (.unregister hpc hid hpos)⟩

theorem Sim.threadExit_outcome (hcore : m.core c = .thread)
    (hcur : m.kernel.current c = some t) (b : Bool) (hpc : m.fiber t = .threadExit) :
    Outcome cfg m a (.core c (.next b)) (check (m.threadExit c t)) := by
  rw [Machine.threadExit]
  by_cases hpos : m.kernel.activeContexts = 0
  · simp [Kernel.threadExit, hpos, cortosAssert, bind, Except.bind, check, Outcome,
      Panic.mayFail]
  · rw [Kernel.threadExit, bne_iff_ne.mpr hpos]
    exact ⟨_, .thread hcore hcur (.threadExit hpc hpos)⟩

/-- A thread inside the kernel. -/
theorem Sim.threadNext_outcome (h : Sim cfg m a) (hrun : m.kernel.isRunning = true)
    (hcore : m.core c = .thread) (hcur : m.kernel.current c = some t) (b : Bool) :
    Outcome cfg m a (.core c (.next b)) (m.threadNext cfg c t b) := by
  rw [Machine.threadNext]
  cases hpc : m.fiber t with
  | user => trivial
  | finished => trivial
  | idle => exact ⟨_, .thread hcore hcur (.idle hpc)⟩
  | register x => exact h.register_outcome hrun hcore hcur b hpc
  | pick s => exact h.pick_outcome hcore hcur b hpc
  | wake s n wait => exact h.wake_outcome hcore hcur b hpc
  | tryWin s n wait tcb g i => exact h.tryWin_outcome hcore hcur b hpc
  | teardown s tcb g => exact h.teardown_outcome hcore hcur b hpc
  | setReady s tcb => exact h.setReady_outcome hrun hcore hcur b hpc
  | evaluate ws p => exact h.evaluate_outcome hcore hcur b hpc
  | commence ws p => exact ⟨_, .thread hcore hcur (.commence hpc)⟩
  | waitReturn ws p => exact ⟨_, .thread hcore hcur (.waitReturn hpc)⟩
  | spin l => exact ⟨_, .thread hcore hcur (.spin hpc)⟩
  | terminate =>
    -- the flag is set by this step and no other
    have hflag : (m.kernel.tcbs t).terminated = false := by
      have := (h.thread t).terminated
      simpa [hpc] using this
    simp only [Machine.terminate, hflag, Bool.not_false, cortosAssert_bind_true]
    exact ⟨_, .terminate hcore hcur hpc⟩
  | unregister => exact Sim.unregister_outcome hcore hcur b hpc
  | threadExit => exact Sim.threadExit_outcome hcore hcur b hpc

/-- A thread of the application. -/
theorem Sim.call_outcome (h : Sim cfg m a) (hcore : m.core c = .thread)
    (hcur : m.kernel.current c = some t) (hpc : m.fiber t = .user) (act : Act)
    (hvalid : (Label.core c act).Valid cfg) :
    Outcome cfg m a (.core c act) (m.call cfg c t act) := by
  cases act with
  | next b => trivial
  | yield => exact ⟨_, .thread hcore hcur (.yield hpc)⟩
  | construct priority affinity =>
    rw [Machine.call]
    rcases m.kernel.construct_cases cfg priority affinity with hc | ⟨d, hd, hc⟩
    · rw [hc]
      exact rfl
    · rw [hc]
      exact ⟨_, .construct hcore hcur hpc hd hvalid⟩
  | signalOne o acquired =>
    exact ⟨_, .thread hcore hcur (.signal hpc (if_neg Bool.false_ne_true).symm)⟩
  | signalAll o acquired =>
    exact ⟨_, .thread hcore hcur (.signal hpc (if_pos rfl).symm)⟩
  | waitForAny os => exact h.waitForAny_outcome hcore hcur hpc _ _
  | waitUntil os b => exact Sim.waitUntil_outcome hcore hcur hpc _ _ _ _
  | join n =>
    rw [Machine.call]
    split
    · exact Sim.waitUntil_outcome hcore hcur hpc _ _ _ _
    · trivial
  | lock l => exact ⟨_, .thread hcore hcur (.lock hpc)⟩
  | tryLock l => exact ⟨_, .thread hcore hcur (.tryLock hpc)⟩
  | unlock l =>
    rw [Machine.call, Machine.unlock]
    cases hk : Scheduler.enablePreemption
        { m.kernel with spinlocks := Function.update m.kernel.spinlocks l false } c with
    | ok k => exact ⟨_, .thread hcore hcur (.unlock hpc hk)⟩
    | error p =>
      rw [Scheduler.enablePreemption] at hk
      by_cases hd : 0 < (m.kernel.schedulers c).preemptDisableDepth
      · simp [hd, pure, Except.pure] at hk
      · simp only [hd, decide_false, cortosAssert, Bool.false_eq_true, if_false, bind,
          Except.bind, Except.error.injEq] at hk
        rw [← hk]
        exact rfl
  | ret => exact ⟨_, .ret hcore hcur hpc⟩

/-- `reschedule` from its switch on, when the outgoing thread is not ready. -/
theorem Sim.switchThread (h : Sim cfg m a) (hc : c < cfg.cores) (hcore : m.core c = .switch)
    (hcur : m.kernel.current c = some t) (hnr : a.phase t ≠ .ready) :
    ∃ next k a', Scheduler.switchThread cfg m.kernel c = .ok (next, Scheduler.dispatch k c next) ∧
      Scheduler.popNext (m.kernel.rotated c t) c = .ok (next, k) ∧
      (a.rotated c (m.kernel.priority t) t).Selects c next a' ∧
      Sim cfg (m.coreGoto (Scheduler.dispatch k c next) c .thread) a' := by
  obtain ⟨hsim, hnot, hrot⟩ := h.rotate hcore hcur
  have hcur' : (m.kernel.rotated c t).current c = some t := by
    obtain ⟨bits, hb⟩ := (m.kernel.rotated_fields c t).2.2.2.2 c
    rw [Kernel.current, hb]
    exact hcur
  obtain ⟨next, k, a', hpop, -, -, hsel, hsim'⟩ := hsim.select hc (by simp [hcore])
    (fun u hu => by
      rw [hcur'] at hu
      cases hu
      exact hnot)
  refine ⟨next, k, a', ?_, hpop, hsel, hsim'⟩
  simp only [Scheduler.switchThread, hcur, hrot hnr, ok_bind, hpop]
  rfl

/-- A core in its scheduler fiber. -/
theorem Sim.switch_outcome (h : Sim cfg m a) (hc : c < cfg.cores) (hcore : m.core c = .switch)
    (b : Bool) : Outcome cfg m a (.core c (.next b)) (check (do
      let (_, k) ← Scheduler.switchThread cfg m.kernel c
      return m.coreGoto k c .thread)) := by
  cases hcur : m.kernel.current c with
  | none =>
    have := (h.boot c).mpr hcur
    rw [hcore] at this
    cases this
  | some t =>
    by_cases hnr : a.phase t = .ready
    · have hst : m.kernel.state t = .ready := by rw [(h.thread t).state, hnr]; rfl
      simp only [Scheduler.switchThread, hcur, Scheduler.rotate, hst]
      exact rfl
    · obtain ⟨next, k, a', hsw, hpop, hsel, hsim⟩ := h.switchThread hc hcore hcur hnr
      rw [hsw]
      exact ⟨_, .switch hc hcore hcur hnr hpop hsel hsim⟩

/-- `Scheduler::start` of a core. -/
theorem Sim.startThread (h : Sim cfg m a) (hc : c < cfg.cores) (hcore : m.core c = .boot) :
    ∃ next k a', Scheduler.start m.kernel c = .ok (next, Scheduler.dispatch k c next) ∧
      Scheduler.popNext m.kernel c = .ok (next, k) ∧ a.Selects c next a' ∧
      Sim cfg (m.coreGoto (Scheduler.dispatch k c next) c .thread) a' := by
  have hcur := (h.boot c).mp hcore
  obtain ⟨next, k, a', hpop, hst, -, hsel, hsim⟩ := h.select hc (by simp [hcore])
    (fun u hu => by simp [hcur] at hu)
  have hi : (m.kernel.schedulers c).idleThread.isSome = true := by rw [(h.idle c).1]; rfl
  refine ⟨next, k, a', ?_, hpop, hsel, hsim⟩
  simp only [Scheduler.start, hi, cortosAssert_bind_true, hpop, ok_bind, hst, beq_self_eq_true]
  rfl

theorem Sim.boot_outcome (h : Sim cfg m a) (hrun : m.kernel.isRunning = true)
    (hc : c < cfg.cores) (hcore : m.core c = .boot)
    (b : Bool) : Outcome cfg m a (.core c (.next b)) (check (do
      let (_, k) ← Scheduler.start m.kernel c
      return m.coreGoto k c .thread)) := by
  obtain ⟨next, k, a', hstart, hpop, hsel, hsim⟩ := h.startThread hc hcore
  rw [hstart]
  exact ⟨_, .boot hrun hc hcore hpop hsel hsim⟩

theorem Sim.drain_outcome (h : Sim cfg m a) (hcore : m.core c = .drain) (b : Bool) :
    Outcome cfg m a (.core c (.next b)) (check (m.drain cfg c b)) := by
  rw [Machine.drain]
  cases b with
  | true => exact ⟨_, .coreMove (.drained hcore)⟩
  | false =>
    cases hin : (m.kernel.schedulers c).inbox with
    | nil =>
      have hone : Scheduler.drainOne cfg m.kernel c = .ok none := by
        simp [Scheduler.drainOne, hin]
      simp only [Bool.false_eq_true, if_false, hone, ok_bind]
      exact ⟨_, .coreMove (.drained hcore)⟩
    | cons x rest =>
      simp only [Bool.false_eq_true, if_false, (h.drainOne hcore hin).1, ok_bind]
      exact ⟨_, .drainOne hcore hin⟩

/-- `reschedule` passes its assertions. -/
theorem Sim.rescheduleEntry (h : Sim cfg m a) (hcore : m.core c = .reschedule) :
    Scheduler.rescheduleEntry m.kernel c = .ok () := by
  cases hcur : m.kernel.current c with
  | none =>
    have := (h.boot c).mpr hcur
    rw [hcore] at this
    cases this
  | some t =>
    have hon := (h.current c t hcur).2
    have hnr : a.phase t ≠ .ready := fun hp => by simp [hp, hcore, Phase.onCore] at hon
    have hst : (m.kernel.state t != .ready) = true := by
      rw [(h.thread t).state]
      cases hp : a.phase t <;> simp_all [Phase.onCore, Phase.state]
    have hlink := h.ready.links.not_isEnqueued (h.not_queued hnr)
    simp only [Scheduler.rescheduleEntry, hcur, hlink, Bool.not_false, hst, cortosAssert, if_true,
      ok_bind]

theorem Sim.reschedule_outcome (h : Sim cfg m a) (hcore : m.core c = .reschedule) (b : Bool) :
    Outcome cfg m a (.core c (.next b)) (check (do
      Scheduler.rescheduleEntry m.kernel c
      return m.coreGoto m.kernel c .drain)) := by
  rw [h.rescheduleEntry hcore]
  exact ⟨_, .coreMove (.reschedule hcore)⟩

/-- `main` constructs a thread that is pinned to core `d`. -/
theorem Sim.constructBeforeStart (h : Sim cfg m a) (hrun : m.kernel.isRunning = false)
    {priority : UInt8} {affinity : BitVec 32} {d : Nat}
    (hprio : priority.toNat < cfg.maxPriorities) (hd : d < cfg.cores)
    (hc : m.kernel.construct cfg priority affinity =
      .ok (m.kernel.constructed cfg priority affinity d)) :
    m.constructBeforeStart cfg priority affinity = .ok { m with
      kernel := (m.kernel.constructed cfg priority affinity d).makeReady d
        (.user m.kernel.threads) } := by
  obtain ⟨⟨hp, hpin, hst, hlink, hidle⟩, -⟩ := h.constructBoot hprio hd rfl
    (x := .user m.kernel.threads) (rfl : m.kernel.constructed cfg priority affinity d = _)
  have hrunk : (m.kernel.constructed cfg priority affinity d).isRunning = false := hrun
  have hset := Kernel.setThreadReady_boot (c := 0) (d := d) hrunk (by simp [hst]) hpin hidle
    hp hlink
  simp only [Machine.constructBeforeStart, hc, ok_bind, hset]
  rfl

/-- **What a step can do**: from a simulated state every step is one of `Trans`,
or fails one of the assertions of `Panic.mayFail`. -/
theorem Machine.step_outcome (h : Sim cfg m a) {l : Label} (hvalid : l.Valid cfg) :
    Outcome cfg m a l (m.step cfg l) := by
  cases l with
  | construct priority affinity =>
    rw [Machine.step]
    split
    · trivial
    · next hrun =>
      have hrun' : m.kernel.isRunning = false := by simpa using hrun
      rcases m.kernel.construct_cases cfg priority affinity with hc | ⟨d, hd, hc⟩
      · rw [Machine.constructBeforeStart, hc]
        exact rfl
      · rw [h.constructBeforeStart hrun' hvalid hd hc]
        exact ⟨_, .constructBoot hrun' hd hvalid⟩
  | start =>
    rw [Machine.step]
    split
    · trivial
    · next hrun =>
      have hrun' : m.kernel.isRunning = false := by simpa using hrun
      rw [Kernel.start]
      by_cases hpos : 0 < m.kernel.activeThreads
      · rw [decide_eq_true hpos]
        exact ⟨_, .start hrun' hpos⟩
      · rw [decide_eq_false hpos]
        exact rfl
  | core c act =>
    rw [Machine.step]
    split
    · next hcond =>
      obtain ⟨hrun, hc⟩ := hcond
      cases hcore : m.core c with
      | thread =>
        cases hcur : m.kernel.current c with
        | none =>
          simp only [Machine.coreStep, hcore, hcur]
          trivial
        | some t =>
          by_cases hpc : m.fiber t = .user
          · have hstep : m.coreStep cfg c act = m.call cfg c t act := by
              simp only [Machine.coreStep, hcore, hcur, hpc]
            rw [hstep]
            exact h.call_outcome hcore hcur hpc act hvalid
          · cases act with
            | next b =>
              have hstep : m.coreStep cfg c (.next b) = m.threadNext cfg c t b := by
                simp only [Machine.coreStep, hcore, hcur]
              rw [hstep]
              exact h.threadNext_outcome hrun hcore hcur b
            | _ =>
              simp only [Machine.coreStep, hcore, hcur]
              trivial
      | _ =>
        cases act with
        | next b =>
          simp only [Machine.coreStep, hcore]
          first
            | exact h.boot_outcome hrun hc hcore b
            | exact h.reschedule_outcome hcore b
            | exact h.drain_outcome hcore b
            | exact h.switch_outcome hc hcore b
            | trivial
            | (split
               · next hlive => exact ⟨_, .coreMove (.pump hcore hlive)⟩
               · next hlive => exact ⟨_, .coreMove (.halt hcore (Nat.le_of_not_lt hlive))⟩)
        | _ =>
          simp only [Machine.coreStep, hcore]
          trivial
    · trivial

/-- Every state reached by valid labels is simulated. -/
theorem reach_sim {C : Machine → Label → Prop} (hC : ∀ m l, C m l → l.Valid cfg)
    (h : (system cfg).ReachVia C m) : ∃ a, Sim cfg m a := by
  refine Lts.ReachVia.invariant (I := fun m => ∃ a, Sim cfg m a) ?_ ?_ h
  · rintro _ rfl
    exact ⟨_, Sim.initial cfg⟩
  · rintro m l m' - ⟨a, ha⟩ hc hstep
    have hout := Machine.step_outcome ha (hC m l hc)
    rw [show m.step cfg l = .ok m' from hstep] at hout
    obtain ⟨a', ht⟩ := hout
    exact ⟨a', ht.sim ha⟩

end Cortos
