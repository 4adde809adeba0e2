import Cortos.Properties.Join
import Cortos.Properties.StaleWake

/-!
# What `join` has waited for

`join` returns when it finds the flag of the thread up. `terminate()` raises the flag
before its `signal_all`, and `unregister_thread` and `cortos_port_thread_exit` come
after that; when the launcher has ended, the port stores the thread's continuation and
the core's next `reschedule` reads its control block once more before it switches away.
So a joiner can return while all of this is still to come: on another core, or never
on the same core, if the reschedule that a more urgent joiner causes abandons the
launcher. A signaller that has picked a node of the thread in an earlier wait may hold
it even longer.

- `early_join_run`: runs in which `join` returns inside the joined thread's `signal_all`, and
  after its launcher but before its core has switched away;
- `join_means_finished`: if whoever finds the flag up finds the core of the thread past its
  switch, no exiting thread wakes a more urgent joiner of its own core and no group is torn
  down under a signaller, then `join` returns only when the launcher has ended. The joined
  thread takes no further step, and nothing in the kernel refers to it
  (`Machine.Released`): its stack buffer, with its control block, can be reused.
-/

namespace Cortos

open Lib

variable {cfg : Config} {m m' : Machine} {a a' : Life} {c : Nat} {t x u : ThreadRef}

/-! ## Tests of the flag -/

/-- The thread whose flag a thread at this point tests when it does `act`: in the
unlocked check of `join`, or in its loop under the lock. -/
def ThreadPc.tests : ThreadPc → Act → Option ThreadRef
  | user, .join n => some (.user n)
  | evaluate _ (.hasTerminated x), .next _ => some x
  | _, _ => none

/-- The joiner that an exiting thread is about to make ready. -/
def ThreadPc.exitWakes : ThreadPc → Option ThreadRef
  | setReady s y => if s.exiting then some y else none
  | _ => none

/-- A join on `x` returns in this step: its thread has tested the flag of `x` and is
back in its own code. -/
def JoinReturns (x : ThreadRef) (m : Machine) (l : Label) (m' : Machine) : Prop :=
  ∃ c act t, l = .core c act ∧ m.core c = .thread ∧ m.kernel.current c = some t ∧
    (m.fiber t).tests act = some x ∧ m'.fiber t = .user

/-- No thread tests the flag of a thread while it is up and the core of that thread has
not switched away from it, and no exiting thread makes a more urgent joiner of its own
core ready. -/
def TestsSettled (m : Machine) : Label → Prop
  | .core c act => ∀ t ∈ m.kernel.current c,
    (∀ x ∈ (m.fiber t).tests act, (m.fiber x).flagged = true →
      m.kernel.current (m.kernel.pinnedCore x) ≠ some x) ∧
    ∀ y ∈ (m.fiber t).exitWakes, m.kernel.pinnedCore y = c → m.kernel.preempts c y = false
  | _ => True

instance (m : Machine) : DecidablePred (TestsSettled m)
  | .core c _ => inferInstanceAs (Decidable (∀ t ∈ m.kernel.current c, _ ∧ _))
  | .construct _ _ | .start => isTrue trivial

/-- Nothing in the kernel refers to `x`. The handles of the application, and joins of `x`
that other threads are in, are not part of it. -/
structure Machine.Released (cfg : Config) (m : Machine) (x : ThreadRef) : Prop where
  current : ∀ c, m.kernel.current c ≠ some x
  ready : ∀ c p, x ∉ m.kernel.readyQueue c p
  inbox : ∀ c, x ∉ (m.kernel.schedulers c).inbox
  /-- No wait node of `x` is linked. -/
  nodes : ∀ w, ∀ n ∈ m.kernel.waitQueue cfg w, n.owner ≠ x
  /-- Nobody is linked on the termination of `x`, and nobody signals it. -/
  joiners : m.kernel.waitQueue cfg (.termination x) = []
  signals : ∀ u, ∀ s ∈ (m.fiber u).signal, s.waitable ≠ .termination x
  /-- Nobody is waking `x` or making it ready. -/
  target : ∀ u, (m.fiber u).target ≠ some x
  register : ∀ u, m.fiber u ≠ .register x

/-! ## Exit sequences stay on their core -/

/-- Threads past `entry()` have left the launcher, or are executing it and have not
been asked to reschedule. -/
def ExitsRun (m : Machine) : Prop :=
  ∀ t, (m.fiber t).exiting = true → m.fiber t = .finished ∨
    m.Executing t ∧ ∀ s ∈ (m.fiber t).signal, s.reschedule = false

/-- A step of the system outside the core of an executing thread leaves it executing. -/
theorem Trans.executing_other {l : Label} (ht : Trans cfg m a l m' a') (h : Sim cfg m a)
    (hu : m.Executing u) (hl : ∀ act, l ≠ .core (m.kernel.pinnedCore u) act) :
    m'.Executing u := by
  have hborn : a.phase u ≠ .unborn := fun hp => h.not_current_of_unborn hp _ hu.2
  have hpin : m'.kernel.pinnedCore u = m.kernel.pinnedCore u := by
    refine congrArg (fun f => f.2.2) (ht.fixed (u := u) ?_)
    rintro rfl
    exact hborn ((h.born _).mpr (Nat.le_refl _))
  have hcur : m'.kernel.current (m.kernel.pinnedCore u) = some u := by
    refine ((ht.current _).resolve_right ?_).trans hu.2
    rintro ⟨b, hb, -⟩
    exact hl _ hb
  have hcore : m'.core (m.kernel.pinnedCore u) = .thread := by
    cases l with
    | core c act =>
      have hne : m.kernel.pinnedCore u ≠ c := by
        rintro rfl
        exact hl act rfl
      exact (ht.other_core hne).1.trans hu.1
    | construct | start =>
      cases ht
      exact hu.1
  exact ⟨by rw [hpin]; exact hcore, by rw [hpin]; exact hcur⟩

/-- A step that the acting thread `t` takes without leaving its core. -/
theorem Sim.executing_stay (h : Sim cfg m a) (hcur : m.kernel.current c = some t)
    (hpin : m'.kernel.fixed t = m.kernel.fixed t) (hcore' : m'.core c = .thread)
    (hcur' : m'.kernel.current c = m.kernel.current c) : m'.Executing t := by
  have hc : m'.kernel.pinnedCore t = c :=
    (congrArg (fun f => f.2.2) hpin).trans (h.current c t hcur).1
  exact ⟨by rw [hc]; exact hcore', by rw [hc, hcur']; exact hcur⟩

/-- A local step of an exit sequence that has not been asked to reschedule. -/
theorem LocalStep.exitsRun (hcore : m.core c = .thread) {act : Act} {pc : ThreadPc}
    (hs : LocalStep cfg m a c t act pc m') (hex : pc.exiting = true)
    (hcalm : ∀ s ∈ (m.fiber t).signal, s.reschedule = false) :
    pc = .finished ∨ m'.core c = .thread ∧ ∀ s ∈ pc.signal, s.reschedule = false := by
  cases hs with
  | @pickNone b s hpc hnone =>
    have hr := hcalm s (by rw [hpc]; rfl)
    rw [s.ret_exiting] at hex
    rw [Machine.signalReturn, hr, SignalCall.ret, hex]
    exact .inr ⟨hcore, by rintro _ ⟨⟩⟩
  | @pickSome b s n hpc hbest | wake hpc =>
    rw [hpc] at hcalm
    exact .inr ⟨hcore, hcalm⟩
  | @lost b s n wait i tcb g hpc hdone =>
    rw [hpc] at hcalm
    have hr := hcalm s rfl
    rw [Machine.signalNext]
    cases hall : s.all with
    | true => exact .inr ⟨hcore, hcalm⟩
    | false =>
      simp only [hall, Bool.false_eq_true, if_false, s.ret_exiting] at hex
      simp only [Bool.false_eq_true, if_false, Machine.signalReturn, hr, SignalCall.ret, hex]
      exact .inr ⟨hcore, by rintro _ ⟨⟩⟩
  | unregisterIdle hpc hid => exact .inl rfl
  | unregister hpc hid hpos => exact .inr ⟨hcore, by rintro _ ⟨⟩⟩
  | threadExit hpc hpos => exact .inl rfl
  | @waitReturn b ws p hpc => cases p <;> cases hex
  | spin hpc => split at hex <;> cases hex
  | _ => cases hex

/-- Readying a joiner in an exit sequence without being asked to reschedule. -/
theorem AfterReady.exitsRun {k : Kernel} {resched : Bool} {κ : Claim} {pc : ThreadPc}
    {y : ThreadRef} (h : AfterReady m c t k resched y κ pc m') (hcore : m.core c = .thread)
    (hex : pc.exiting = true) (hcalm : ∀ s ∈ (m.fiber t).signal, s.reschedule = false)
    (hres : (m.fiber t).exitWakes = some y → resched = false) :
    m'.core c = .thread ∧ ∀ s ∈ pc.signal, s.reschedule = false := by
  cases h with
  | register hpc => cases hex
  | @setReady s s' hpc hs =>
    have hexs : s.exiting = true := by
      have hret := s.ret_exiting
      split at hex
      · rw [hs] at hex
        exact hex
      · rwa [← hret]
    have hr := hcalm s (by rw [hpc]; rfl)
    have hs' : s'.reschedule = false := by
      rw [hs]
      simp [hr, hres (by rw [hpc, ThreadPc.exitWakes, if_pos hexs])]
    rw [Machine.signalNext, show s'.all = s.all by rw [hs]]
    cases hall : s.all with
    | true =>
      refine ⟨hcore, ?_⟩
      rintro _ ⟨⟩
      exact hs'
    | false =>
      simp only [Bool.false_eq_true, if_false, Machine.signalReturn, hs', SignalCall.ret, hexs]
      exact ⟨hcore, by rintro _ ⟨⟩⟩

/-- **Step lemma**: exit sequences stay on their core until they have ended. -/
theorem Trans.exitsRun {l : Label} (ht : Trans cfg m a l m' a') (h : Sim cfg m a)
    (hI : ExitsRun m) (hl : TestsSettled m l) : ExitsRun m' := by
  have hfixed := fun u => ht.fixed (u := u)
  have hcurrent := ht.current
  have hother := fun u => ht.executing_other (u := u) h
  -- the step of thread `t` on its core `c`, which goes to `pc`
  have hacting : ∀ {c act t pc}, l = .core c act → m.core c = .thread →
      m.kernel.current c = some t → m'.fiber = Function.update m.fiber t pc →
      (pc.exiting = true → pc = .finished ∨
        m'.core c = .thread ∧ ∀ s ∈ pc.signal, s.reschedule = false) → ExitsRun m' := by
    rintro c act t pc rfl hcore hcur hfiber hpc u hu
    by_cases hut : u = t
    · subst hut
      rw [hfiber, Function.update_self] at hu ⊢
      refine (hpc hu).imp_right fun ⟨hcore', hsig⟩ => ⟨?_, hsig⟩
      refine h.executing_stay hcur (hfixed u ?_) hcore' ?_
      · rintro rfl
        exact h.not_current_of_unborn ((h.born _).mpr (Nat.le_refl _)) c hcur
      · refine (hcurrent c).resolve_right ?_
        rintro ⟨b, -, hb | hb⟩ <;> rw [hcore] at hb <;> cases hb
    · rw [hfiber, Function.update_of_ne hut] at hu ⊢
      refine (hI u hu).imp_right fun ⟨hexec, hsig⟩ => ⟨?_, hsig⟩
      refine hother u hexec fun act' hact => hut ?_
      cases hact
      rw [hexec.2] at hcur
      exact Option.some.inj hcur
  -- the step of a scheduler fiber, or of `main`
  have hscheduler : (∀ u act, l = .core (m.kernel.pinnedCore u) act → ¬ m.Executing u) →
      m'.fiber = m.fiber → ExitsRun m' := by
    intro hoff hfiber u hu
    rw [hfiber] at hu ⊢
    refine (hI u hu).imp_right fun ⟨hexec, hsig⟩ => ⟨?_, hsig⟩
    exact hother u hexec fun act hact => hoff u act hact hexec
  have hoff : ∀ {c b}, m.core c ≠ .thread → l = .core c (.next b) →
      ∀ u act, l = .core (m.kernel.pinnedCore u) act → ¬ m.Executing u := by
    rintro c b hcore rfl u act hact hexec
    cases hact
    exact hcore hexec.1
  -- an exiting thread that takes a step has not ended
  have hcalm : ∀ t, (m.fiber t).exiting = true → m.fiber t ≠ .finished →
      ∀ s ∈ (m.fiber t).signal, s.reschedule = false := fun t hex hne =>
    ((hI t hex).resolve_left hne).2
  cases ht with
  | constructBoot hrun hd hprio => exact hscheduler nofun rfl
  | start hrun hpos => exact hscheduler nofun rfl
  | @thread c t act pc m' hcore hcur hs =>
    refine hacting rfl hcore hcur hs.frame.fiber fun hex => ?_
    exact hs.exitsRun hcore hex (hcalm t (hs.points.exiting ▸ hex) hs.not_finished)
  | construct hcore hcur hpc hd hprio => exact hacting rfl hcore hcur rfl nofun
  | block hcore hcur hpc hpos hlen hnd hsim => exact hacting rfl hcore hcur rfl nofun
  | ret hcore hcur hpc => exact hacting rfl hcore hcur rfl fun _ => .inr ⟨hcore, nofun⟩
  | terminate hcore hcur hpc =>
    refine hacting rfl hcore hcur rfl fun _ => .inr ⟨hcore, ?_⟩
    rintro _ ⟨⟩
    rfl
  | @win c t b s n wait i ws hcore hcur hpc hx
  | @tearDown c t y b s ws links hcore hcur hpc hx hsim =>
    refine hacting rfl hcore hcur rfl fun hex => .inr ⟨hcore, ?_⟩
    have hold := hcalm t (by rw [hpc]; exact hex) (by simp [hpc])
    rw [hpc] at hold
    exact hold
  | @ready c t y b κ pc m' hcore hcur hafter hpin =>
    have hf : ReadyFrame cfg _ _ _ _ _ _ _ _ := hafter.frame
    refine hacting rfl hcore hcur hf.fiber fun hex => .inr ?_
    exact hafter.exitsRun hcore hex (hcalm t (hf.exiting ▸ hex) hf.not_finished)
      fun hy => (hl t hcur).2 y hy hpin
  | @post c t y b κ pc m' hcore hcur hafter hpin hroom =>
    have hf : ReadyFrame cfg _ _ _ _ _ _ _ _ := hafter.frame
    refine hacting rfl hcore hcur hf.fiber fun hex => .inr ?_
    exact hafter.exitsRun hcore hex (hcalm t (hf.exiting ▸ hex) hf.not_finished) fun _ => rfl
  | boot hrun hc hcore hpop hsel hsim => exact hscheduler (hoff (by simp [hcore]) rfl) rfl
  | coreMove hmove => exact hscheduler (hoff hmove.core.2 rfl) rfl
  | drainOne hcore hin => exact hscheduler (hoff (by simp [hcore]) rfl) rfl
  | switch hc hcore hcur hnr hpop hsel hsim =>
    exact hscheduler (hoff (by simp [hcore]) rfl) rfl

theorem ExitsRun.initial (cfg : Config) : ExitsRun (Machine.initial cfg) := by
  rintro (n | n) hex <;> cases hex

/-! ## The theorem -/

/-- A join that returns has found the flag up. -/
theorem Machine.joinReturns_flag {l : Label} (h : JoinReturns x m l m')
    (hs : m.step cfg l = .ok m') : (m.kernel.tcbs x).terminated = true := by
  obtain ⟨c, act, t, rfl, hcore, hcur, htests, hpc'⟩ := h
  rw [step] at hs
  split at hs
  · cases hpc : m.fiber t with
    | user =>
      cases act with
      | join n =>
        obtain rfl : .user n = x := by simpa [hpc, ThreadPc.tests] using htests
        simp only [coreStep, hcore, hcur, hpc, call] at hs
        split at hs
        · simp only [check_ok, waitUntil, bind_ok, cortosAssert_ok, exists_const, pure,
            Except.pure] at hs
          obtain ⟨-, -, hs⟩ := hs
          split at hs
          · next hholds => exact hholds
          · cases hs
            simp [goto] at hpc'
        · cases hs
      | _ => simp [hpc, ThreadPc.tests] at htests
    | evaluate ws p =>
      cases act with
      | next b =>
        cases p with
        | application => simp [hpc, ThreadPc.tests] at htests
        | hasTerminated y =>
          obtain rfl : y = x := by simpa [hpc, ThreadPc.tests] using htests
          simp only [coreStep, hcore, hcur, hpc, threadNext, check_ok, evaluate, bind_ok] at hs
          obtain ⟨g, -, hs⟩ := hs
          split at hs
          · next hholds => exact hholds
          · rw [block_fiber hs] at hpc'
            cases hpc'
      | _ => simp [hpc, ThreadPc.tests] at htests
    | _ => simp [hpc, ThreadPc.tests] at htests
  · cases hs

/-! ### Nothing refers to a thread that has ended -/

/-- The points of the threads in any run, with respect to joins of `x`. -/
abbrev JoinPoints (x : ThreadRef) (m : Machine) : Prop :=
  ∀ u, (m.fiber u).Joining (fun _ => IsJoin x) x (fun _ => False) u

theorem JoinPoints.initial (cfg : Config) (x : ThreadRef) : JoinPoints x (Machine.initial cfg) := by
  intro u
  cases u <;> exact .outside rfl rfl

theorem Trans.joinPoints {l : Label} (ht : Trans cfg m a l m' a') (h : Sim cfg m a)
    (hs : m.step cfg l = .ok m') (hI : JoinPoints x m) : JoinPoints x m' :=
  ht.joining h hs (fun _ _ _ => False.elim) (fun _ _ _ _ _ _ hw => Act.isJoin hw) hI

/-- When picked nodes are fresh, a wait on the termination of `x` is won by `x`: nobody
else signals it. -/
theorem PickedFresh.winner (hfresh : PickedFresh m a) (h : Sim cfg m a) (hI : JoinPoints x m)
    {y v : ThreadRef} {ws : List WaitableRef} (hp : a.phase y = .won v ws)
    (hx : .termination x ∈ ws) : v = x := by
  have hclaim := (h.claims y v .tearDown).mpr (by rw [hp]; rfl)
  obtain ⟨s, g, hpc⟩ : ∃ s g, m.fiber v = .teardown s y g := by
    cases hpv : m.fiber v <;> simp_all [ThreadPc.claim]
  have hnode := hfresh v
  rw [hpc] at hnode
  obtain ⟨i, hi⟩ := hnode
  have hheld := (h.waiting.mem _ _).mp hi
  -- the wait is a join of `x`, so the signalled waitable is the termination of `x`
  obtain ⟨hws, -⟩ := h.held_termination hI (fun _ _ hw => hw) (j := y) (by rw [hp]; exact hx)
  have hsig : s.waitable = .termination x := by
    have hmem := List.mem_of_getElem? hheld
    rw [hws] at hmem
    exact List.mem_singleton.mp hmem
  rcases (hI v).signal s (by rw [hpc]; rfl) with ⟨-, -, hv⟩ | ⟨-, o, ho⟩
  · rw [hsig] at hv
    exact (WaitableRef.termination.inj hv).symm
  · rw [hsig] at ho
    cases ho

/-- A thread that has ended is not selected again. -/
theorem Trans.not_current_of_finished {l : Label} (ht : Trans cfg m a l m' a') (h : Sim cfg m a)
    (hfin : m'.fiber x = .finished) (hcur : ∀ d, m.kernel.current d ≠ some x) (d : Nat) :
    m'.kernel.current d ≠ some x := by
  rcases ht.current d with hsame | ⟨b, rfl, hcore⟩
  · rw [hsame]
    exact hcur d
  · obtain ⟨next, hsel⟩ := ht.selected hcore
    rw [hsel.current]
    rintro ⟨⟩
    have hdead := (ht.sim h).dead_of_finished hfin
    rw [hsel.running] at hdead
    cases hdead

/-- A thread that has ended and that its core has switched away from is released. -/
theorem Sim.released (h : Sim cfg m a) (hfin : m.fiber x = .finished)
    (hcur : ∀ c, m.kernel.current c ≠ some x) (hfresh : PickedFresh m a)
    (hI : JoinPoints x m) (hleft : TerminationLeft x m a) : m.Released cfg x := by
  have hdead := h.dead_of_finished hfin
  have hnode : ∀ n w, n ∈ a.waiters w → n.owner ≠ x := by
    rintro n w hn rfl
    have hheld := (h.waiting.mem w n).mp hn
    rw [hdead] at hheld
    cases hheld
  have hclaim : ∀ u κ, (m.fiber u).claim ≠ some (x, κ) := by
    intro u κ hc
    have := (h.claims x u κ).mp hc
    rw [hdead] at this
    cases this
  refine ⟨hcur, ?_, ?_, ?_, ?_, ?_, ?_, ?_⟩
  · intro c p hmem
    rw [h.readyQueue_eq, h.queued, hdead] at hmem
    cases hmem.1
  · intro c hmem
    rw [(h.inbox c).2 x, hdead] at hmem
    cases hmem.1
  · intro w n hn
    rw [h.waitQueue_eq] at hn
    exact hnode n w hn
  · rw [h.waitQueue_eq, List.eq_nil_iff_forall_not_mem]
    intro n hn
    exact hleft (by rw [hfin]; rfl) n.owner (List.mem_of_getElem? ((h.waiting.mem _ n).mp hn))
  · intro u s hs hw
    rcases (hI u).signal s hs with ⟨-, -, hu⟩ | ⟨-, o, ho⟩
    · rw [hw] at hu
      cases hu
      rw [hfin] at hs
      cases hs
    · rw [hw] at ho
      cases ho
  · intro u htarget
    have hf := hfresh u
    cases hpc : m.fiber u with
    | wake s n w | tryWin s n w tcb g i =>
      rw [hpc] at hf htarget
      exact hnode n _ hf.1 (Option.some.inj htarget)
    | teardown s y g | setReady s y =>
      rw [hpc] at htarget
      cases htarget
      exact hclaim u _ (by rw [hpc]; rfl)
    | _ =>
      rw [hpc] at htarget
      cases htarget
  · intro u hpc
    exact hclaim u .makeReady (by rw [hpc]; rfl)

/-! ### The run -/

/-- What a run under the condition keeps. -/
structure Settled (x : ThreadRef) (m : Machine) (a : Life) : Prop where
  exits : ExitsRun m
  accounts : Accounts m
  fresh : PickedFresh m a
  points : JoinPoints x m
  left : TerminationLeft x m a

theorem Settled.initial (cfg : Config) (x : ThreadRef) :
    Settled x (Machine.initial cfg) (Life.initial cfg) :=
  ⟨.initial cfg, .initial cfg, fun u => by cases u <;> trivial, .initial cfg x, .initial cfg x⟩

theorem Settled.step {l : Label} (hI : Settled x m a) (h : Sim cfg m a)
    (ht : Trans cfg m a l m' a') (hs : m.step cfg l = .ok m') (hcount : CountersFit m l)
    (hsettled : TestsSettled m l) (hunpicked : TearsDownUnpicked m l) : Settled x m' a' where
  exits := ht.exitsRun h hI.exits hsettled
  accounts := ht.accounts h hI.accounts hcount
  fresh := ht.pickedFresh h hI.fresh hunpicked
  points := ht.joinPoints h hs hI.points
  left := hI.left.step h ht hs hI.points (fun _ _ hw => hw)
    fun _ _ _ hp hx => hI.fresh.winner h hI.points hp hx

/-- A join that returns finds the launcher ended and the core past its switch. -/
theorem ExitsRun.join_returns (hexits : ExitsRun m) (h : Sim cfg m a) {l : Label}
    (hs : m.step cfg l = .ok m') (hl : TestsSettled m l) (hret : JoinReturns x m l m') :
    m.fiber x = .finished ∧ ∀ d, m.kernel.current d ≠ some x := by
  have hflag := (h.flagged_iff x).mp (Machine.joinReturns_flag hret hs)
  obtain ⟨c, act, t, rfl, -, hcur, htests, -⟩ := hret
  have haway : m.kernel.current (m.kernel.pinnedCore x) ≠ some x := (hl t hcur).1 x htests hflag
  have hex : (m.fiber x).exiting = true := by
    rw [ThreadPc.flagged, Bool.and_eq_true] at hflag
    exact hflag.1
  refine ⟨(hexits x hex).resolve_right fun hexec => haway hexec.1.2, fun d hd => haway ?_⟩
  rw [(h.current d x hd).1]
  exact hd

/-- **Join means finished**: in a run in which nobody finds the flag of a thread up before
the core of that thread has switched away from it, no exiting thread makes a more urgent
joiner of its own core ready and no group is torn down while a signaller holds a node of
it, when a join on `x` returns the launcher of `x` has ended, with one call of
`unregister_thread` and one of `cortos_port_thread_exit`. From there on `x` takes no step
and nothing in the kernel refers to it. -/
theorem join_means_finished {N : Nat} (r : (system cfg).Run N)
    (hr : ∀ i < N, (r.label i).Valid cfg ∧ CountersFit (r.state i) (r.label i) ∧
      TestsSettled (r.state i) (r.label i) ∧ TearsDownUnpicked (r.state i) (r.label i))
    {k : Nat} (hk : k < N) (hret : JoinReturns x (r.state k) (r.label k) (r.state (k + 1))) :
    ((r.state k).fiber x = .finished ∧ (r.state k).unregisters x = 1 ∧
      (r.state k).exits x = 1) ∧
    ∀ i, k ≤ i → i ≤ N → (r.state i).Released cfg x ∧ (r.state i).fiber x = .finished ∧
      (i < N → (r.state i).acting (r.label i) ≠ some x) := by
  have hinv := run_invariant
    (C := fun m l => l.Valid cfg ∧ CountersFit m l ∧ TestsSettled m l ∧ TearsDownUnpicked m l)
    (fun _ _ hc => hc.1) r hr (I := fun _ m a => Settled x m a) (Settled.initial cfg x)
    fun {i _ _} hi ha hI ht =>
      hI.step ha ht (r.next i hi) (hr i hi).2.1 (hr i hi).2.2.1 (hr i hi).2.2.2
  obtain ⟨a, h, hI⟩ := hinv k (Nat.le_of_lt hk)
  have hend := hI.exits.join_returns h (r.next k hk) (hr k hk).2.2.1 hret
  have hstays := r.stable
    (P := fun m => m.fiber x = .finished ∧ ∀ d, m.kernel.current d ≠ some x) hend
    (fun i _ hi hP => by
      obtain ⟨a, h, -⟩ := hinv i (Nat.le_of_lt hi)
      obtain ⟨a', ht⟩ := h.trans (hr i hi).1 (r.next i hi)
      have hfin := ht.finished (r.next i hi) hP.1
      exact ⟨hfin, ht.not_current_of_finished h hfin hP.2⟩)
  refine ⟨⟨hend.1, ?_, ?_⟩, fun i hki hi => ?_⟩
  · rw [hI.accounts.unregisters, hend.1]
    rfl
  · rw [hI.accounts.exits, hend.1]
    rfl
  · obtain ⟨hfin, hcur⟩ := hstays i hki hi
    obtain ⟨a, h, hI⟩ := hinv i hi
    exact ⟨h.released hfin hcur hI.fresh hI.points hI.left, hfin,
      fun hi' => Machine.not_acting_of_finished (r.next i hi') hfin⟩

/-- Thread 2, on the other core, joins thread 0, which returns; core 0 goes on with thread 1
before thread 2 is resumed. -/
def lateJoin : (system twoCores).Run 35 :=
  .ofLabels (Machine.initial twoCores)
    (List.flatten [[.construct 5 1#32, .construct 5 1#32, .construct 5 2#32, .start], steps 0 1,
      steps 1 1, [.core 1 (.join 0)], steps 1 6, [.core 0 .ret], steps 0 13, steps 1 8])
    .start (by exact system_init twoCores) (by decide +kernel)

theorem join_means_finished_late :
    JoinReturns (.user 0) (lateJoin.state 34) (lateJoin.label 34) (lateJoin.state 35) ∧
      ((lateJoin.state 34).fiber (.user 0) = .finished ∧
        (lateJoin.state 34).unregisters (.user 0) = 1 ∧
        (lateJoin.state 34).exits (.user 0) = 1) ∧
      (lateJoin.state 35).Released twoCores (.user 0) := by
  have hr : ∀ i < 35, (lateJoin.label i).Valid twoCores ∧
      CountersFit (lateJoin.state i) (lateJoin.label i) ∧
      TestsSettled (lateJoin.state i) (lateJoin.label i) ∧
      TearsDownUnpicked (lateJoin.state i) (lateJoin.label i) := by decide +kernel
  have hret : JoinReturns (.user 0) (lateJoin.state 34) (lateJoin.label 34) (lateJoin.state 35) :=
    ⟨1, .next false, .user 2, by decide +kernel⟩
  obtain ⟨hend, hreleased⟩ := join_means_finished lateJoin hr (by decide) hret
  exact ⟨hret, hend, (hreleased 35 (by decide) (by decide)).1⟩

/-- Thread 0 returns; thread 1, on the other core, joins it while it is in its
`signal_all`. -/
def earlyJoin : (system twoCores).Run 9 :=
  .ofLabels (Machine.initial twoCores)
    (List.flatten [[.construct 5 1#32, .construct 5 2#32, .start], steps 0 1, steps 1 1,
      [.core 0 .ret], steps 0 1, [.core 1 (.join 0)], steps 0 1])
    .start (by exact system_init twoCores) (by decide +kernel)

/-- The same, but the launcher of thread 0 has ended when thread 1 joins it. -/
def lingeringJoin : (system twoCores).Run 12 :=
  .ofLabels (Machine.initial twoCores)
    (List.flatten [[.construct 5 1#32, .construct 5 2#32, .start], steps 0 1, steps 1 1,
      [.core 0 .ret], steps 0 4, [.core 1 (.join 0)], steps 0 1])
    .start (by exact system_init twoCores) (by decide +kernel)

/-- The join returns at once. Thread 0 has not unregistered and has not exited its
context, and takes a step afterwards. In the second run it has ended, but core 0 enters
`reschedule` with it as the current thread. -/
theorem early_join_run :
    ((∀ i < 9, (earlyJoin.label i).Valid twoCores) ∧
      JoinReturns (.user 0) (earlyJoin.state 7) (earlyJoin.label 7) (earlyJoin.state 8) ∧
      (earlyJoin.state 8).fiber (.user 0) =
        .pick ⟨.termination (.user 0), false, true, false, true⟩ ∧
      (earlyJoin.state 8).unregisters (.user 0) = 0 ∧ (earlyJoin.state 8).exits (.user 0) = 0 ∧
      (earlyJoin.state 8).acting (earlyJoin.label 8) = some (.user 0)) ∧
    (∀ i < 12, (lingeringJoin.label i).Valid twoCores) ∧
    JoinReturns (.user 0) (lingeringJoin.state 10) (lingeringJoin.label 10)
      (lingeringJoin.state 11) ∧
    (lingeringJoin.state 12).core 0 = .reschedule ∧
    (lingeringJoin.state 12).kernel.current 0 = some (.user 0) :=
  ⟨⟨by decide +kernel, ⟨1, .join 0, .user 1, by decide +kernel⟩, by decide +kernel⟩,
    by decide +kernel, ⟨1, .join 0, .user 1, by decide +kernel⟩, by decide +kernel⟩

end Cortos
