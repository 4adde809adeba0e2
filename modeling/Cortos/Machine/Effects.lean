import Cortos.Machine.Transitions

/-!
# What steps leave alone

Frame lemmas over `Trans`, each for one part of the state: which steps can
change the current thread of a core, the priority of a thread, whether its wait
group is won, and where another thread is in its code. The invariants of
`Cortos.Properties` use these instead of looking into kernel functions.
-/

namespace Cortos

open Lib WaitNodePool

variable {cfg : Config} {m m' : Machine} {a a' : Life} {c : Nat} {t x u : ThreadRef}

namespace Kernel

variable (k : Kernel)

/-! ## Kernel operations -/

@[simp] theorem current_makeReady (c d : Nat) (x : ThreadRef) :
    (k.makeReady c x).current d = k.current d := by
  obtain ⟨bits, hb⟩ := k.makeReady_schedulers c d x
  rw [current, hb]
  rfl

@[simp] theorem current_constructed (priority : UInt8) (affinity : BitVec 32) (c d : Nat) :
    (k.constructed cfg priority affinity c).current d = k.current d := by
  obtain ⟨n, hn⟩ := k.constructed_schedulers cfg priority affinity c d
  rw [current, hn]
  rfl

@[simp] theorem current_post (c d : Nat) (x : ThreadRef) :
    (k.post c x).current d = k.current d := by
  by_cases hd : d = c
  · subst hd
    simp [post, modifySched, current]
  · simp [post, modifySched, current, hd]

@[simp] theorem current_drained (c d : Nat) (x : ThreadRef) (rest : List ThreadRef) :
    (k.drained c x rest).current d = k.current d := by
  obtain ⟨bits, hb⟩ := k.drained_schedulers c d x rest
  rw [current, hb]
  rfl

@[simp] theorem current_rotated (c d : Nat) (t : ThreadRef) :
    (k.rotated c t).current d = k.current d := by
  obtain ⟨bits, hb⟩ := (k.rotated_fields c t).2.2.2.2 d
  rw [current, hb]
  rfl

/-- How many threads have been constructed, the next thread id, and how many
threads are registered. -/
def counters : Nat × Nat × Nat := (k.threads, k.threadIdGenerator, k.activeThreads)

/-- Taking a thread off the ready matrix changes links and a bitmap. -/
theorem popNext_eq {k' : Kernel} {next : ThreadRef}
    (h : Scheduler.popNext k c = .ok (next, k')) : ∃ links bits,
      k' = { k.modifySched c fun s => { s with bitmap := bits } with ready := links } := by
  have hstay : ∀ links, { k with ready := links } =
      { k.modifySched c fun s => { s with bitmap := (k.schedulers c).bitmap } with
        ready := links } := fun links => by
    rw [modifySched, Function.update_eq_self]
  have hbest : ∃ links bits, (k.popBestThread c).2 =
      { k.modifySched c fun s => { s with bitmap := bits } with ready := links } := by
    rw [popBestThread]
    split
    · exact ⟨_, _, hstay k.ready⟩
    · dsimp only
      split
      · exact ⟨_, _, rfl⟩
      · exact ⟨_, _, hstay _⟩
  rw [Scheduler.popNext] at h
  split at h
  · next hp =>
    cases h
    rwa [hp] at hbest
  · next hp _ =>
    cases h
    rwa [hp] at hbest
  · cases h

/-- What taking a thread off the ready matrix leaves alone. -/
theorem popNext_fields {k' : Kernel} {next : ThreadRef}
    (h : Scheduler.popNext k c = .ok (next, k')) :
    k'.tcbs = k.tcbs ∧ k'.counters = k.counters ∧ k'.isRunning = k.isRunning ∧
      ∀ d, k'.current d = k.current d := by
  obtain ⟨links, bits, rfl⟩ := k.popNext_eq h
  refine ⟨rfl, rfl, rfl, fun d => ?_⟩
  by_cases hd : d = c
  · subst hd
    simp [modifySched, current]
  · simp [modifySched, current, hd]

theorem popNext_activeContexts {k' : Kernel} {next : ThreadRef}
    (h : Scheduler.popNext k c = .ok (next, k')) : k'.activeContexts = k.activeContexts := by
  obtain ⟨links, bits, rfl⟩ := k.popNext_eq h
  rfl

theorem current_dispatch (c d : Nat) (t : ThreadRef) :
    (Scheduler.dispatch k c t).current d = if d = c then some t else k.current d := by
  by_cases hd : d = c
  · subst hd
    simp [Scheduler.dispatch, modifySched, current]
  · simp [Scheduler.dispatch, modifySched, current, hd, setState, modifyTcb]

/-! ## What never changes about a thread -/

/-- The fields of a thread's block that are fixed once it is constructed. -/
def fixed (t : ThreadRef) : Nat × Nat × Nat :=
  ((k.tcbs t).effectivePriority, (k.tcbs t).id, (k.tcbs t).pinnedCore)

theorem fixed_update {k k' : Kernel} {x : ThreadRef} {b : Tcb}
    (h : k'.tcbs = Function.update k.tcbs x b)
    (hb : (b.effectivePriority, b.id, b.pinnedCore) = k.fixed x) (t : ThreadRef) :
    k'.fixed t = k.fixed t := by
  by_cases ht : t = x
  · rw [fixed, h, ht, Function.update_self, hb]
  · rw [fixed, h, Function.update_of_ne ht]
    rfl

theorem fixed_makeReady (c : Nat) (x t : ThreadRef) : (k.makeReady c x).fixed t = k.fixed t :=
  fixed_update (k.makeReady_tcbs c x) rfl t

theorem fixed_rotated (c : Nat) (x t : ThreadRef) : (k.rotated c x).fixed t = k.fixed t := by
  obtain ⟨st, hst⟩ := (k.rotated_fields c x).2.2.2.1 t
  rw [fixed, hst]
  rfl

theorem fixed_dispatch (c : Nat) (x t : ThreadRef) :
    (Scheduler.dispatch k c x).fixed t = k.fixed t :=
  fixed_update (k := k) (x := x) (b := { k.tcbs x with state := .running }) rfl rfl t

/-- Taking a thread off the ready matrix and dispatching it keeps priorities. -/
theorem priority_selected {k k' : Kernel} {next : ThreadRef}
    (hpop : Scheduler.popNext k c = .ok (next, k')) (t : ThreadRef) :
    (Scheduler.dispatch k' c next).priority t = k.priority t := by
  refine (congrArg Prod.fst (fixed_dispatch k' c next t)).trans ?_
  simp only [fixed]
  rw [(popNext_fields k hpop).1]
  rfl

/-! ## Wait groups -/

theorem waitGroup_update {k k' : Kernel} {x : ThreadRef} {b : Tcb}
    (h : k'.tcbs = Function.update k.tcbs x b) (hb : b.waitGroup = (k.tcbs x).waitGroup)
    (t : ThreadRef) : (k'.tcbs t).waitGroup = (k.tcbs t).waitGroup := by
  by_cases ht : t = x
  · rw [h, ht, Function.update_self, hb]
  · rw [h, Function.update_of_ne ht]

theorem waitGroup_makeReady (c : Nat) (x t : ThreadRef) :
    ((k.makeReady c x).tcbs t).waitGroup = (k.tcbs t).waitGroup :=
  waitGroup_update (k.makeReady_tcbs c x) rfl t

theorem waitGroup_rotated (c : Nat) (x t : ThreadRef) :
    ((k.rotated c x).tcbs t).waitGroup = (k.tcbs t).waitGroup := by
  obtain ⟨st, hst⟩ := (k.rotated_fields c x).2.2.2.1 t
  rw [hst]

theorem waitGroup_dispatch (c : Nat) (x t : ThreadRef) :
    ((Scheduler.dispatch k c x).tcbs t).waitGroup = (k.tcbs t).waitGroup :=
  waitGroup_update (k := k) (x := x) (b := { k.tcbs x with state := .running }) rfl rfl t

theorem waitGroup_constructed (priority : UInt8) (affinity : BitVec 32) (c : Nat)
    (t : ThreadRef) :
    ((k.constructed cfg priority affinity c).tcbs t).waitGroup = (k.tcbs t).waitGroup ∨
      t = .user k.threads ∧ (k.constructed cfg priority affinity c).done t = false := by
  rw [done, constructed_tcbs]
  by_cases ht : t = .user k.threads
  · refine .inr ⟨ht, ?_⟩
    rw [ht, Function.update_self]
    rfl
  · exact .inl (by rw [Function.update_of_ne ht])

/-! ## The counters of the kernel -/

theorem activeContexts_rotated (c : Nat) (t : ThreadRef) :
    (k.rotated c t).activeContexts = k.activeContexts := by
  rw [rotated]
  split
  · split <;> rfl
  · rfl

theorem counters_rotated (c : Nat) (t : ThreadRef) : (k.rotated c t).counters = k.counters := by
  rw [rotated]
  split
  · split <;> rfl
  · rfl

end Kernel

/-! ## The current thread -/

/-- A thread of core `c` other than its current thread is current on no core. -/
theorem Sim.not_current_of_pinned (h : Sim cfg m a) (hcur : m.kernel.current c = some t)
    (hxt : x ≠ t) (hpin : m.kernel.pinnedCore x = c) (d : Nat) :
    m.kernel.current d ≠ some x := fun hd => by
  have := (h.current d x hd).1
  rw [hpin] at this
  rw [← this, hcur] at hd
  exact hxt (Option.some.inj hd).symm

/-- What is unborn is current on no core. -/
theorem Sim.not_current_of_unborn (h : Sim cfg m a) (hx : a.phase x = .unborn) (d : Nat) :
    m.kernel.current d ≠ some x := fun hd => by
  have := (h.current d x hd).2
  rw [hx] at this
  exact absurd this (by simp [Phase.onCore])

/-- Only `start` and `reschedule` on core `d` change its current thread. -/
theorem Trans.current {l : Label} (ht : Trans cfg m a l m' a') (d : Nat) :
    m'.kernel.current d = m.kernel.current d ∨
      ∃ b, l = .core d (.next b) ∧ (m.core d = .boot ∨ m.core d = .switch) := by
  cases ht with
  | constructBoot hrun hd hprio => simp
  | start hrun hpos => exact .inl rfl
  | thread hcore hcur hs => exact .inl (hs.frame.kernel.currentThread d)
  | construct hcore hcur hpc hd hprio => exact .inl (Kernel.current_constructed _ _ _ _ _)
  | block | ret | terminate | win | tearDown => exact .inl rfl
  | ready hcore hcur hafter hpin =>
    have hf : ReadyFrame cfg _ _ _ _ _ _ _ _ := hafter.frame
    exact .inl (by rw [hf.kernel, Kernel.current_makeReady])
  | post hcore hcur hafter hpin hroom =>
    have hf : ReadyFrame cfg _ _ _ _ _ _ _ _ := hafter.frame
    exact .inl (by rw [hf.kernel, Kernel.current_post])
  | @boot c b next k a' hrun hc hcore hpop hsel hsim =>
    by_cases hd : d = c
    · subst hd
      exact .inr ⟨b, rfl, .inl hcore⟩
    · refine .inl ?_
      show (Scheduler.dispatch k c next).current d = _
      rw [Kernel.current_dispatch, if_neg hd, (Kernel.popNext_fields _ hpop).2.2.2]
  | coreMove hmove => exact .inl rfl
  | drainOne hcore hin => exact .inl (Kernel.current_drained _ _ _ _ _)
  | @switch c t next b k a' hc hcore hcur hnr hpop hsel hsim =>
    by_cases hd : d = c
    · subst hd
      exact .inr ⟨b, rfl, .inr hcore⟩
    · refine .inl ?_
      show (Scheduler.dispatch k c next).current d = _
      rw [Kernel.current_dispatch, if_neg hd, (Kernel.popNext_fields _ hpop).2.2.2,
        Kernel.current_rotated]

theorem Trans.current_of_thread {l : Label} {d : Nat} (ht : Trans cfg m a l m' a')
    (hcore : m.core d = .thread) : m'.kernel.current d = m.kernel.current d := by
  refine (ht.current d).resolve_right ?_
  rintro ⟨-, -, hboot | hswitch⟩
  · rw [hcore] at hboot
    cases hboot
  · rw [hcore] at hswitch
    cases hswitch

/-- Steps keep priority, id and core of a thread, except that of the thread they
construct. -/
theorem Trans.fixed {l : Label} (ht : Trans cfg m a l m' a') (hu : u ≠ .user m.kernel.threads) :
    m'.kernel.fixed u = m.kernel.fixed u := by
  have hconstructed : ∀ priority affinity d,
      (m.kernel.constructed cfg priority affinity d).fixed u = m.kernel.fixed u := by
    intro priority affinity d
    rw [Kernel.fixed, Kernel.constructed_tcbs, Function.update_of_ne hu]
    rfl
  cases ht with
  | constructBoot hrun hd hprio => exact (Kernel.fixed_makeReady _ _ _ _).trans (hconstructed ..)
  | start hrun hpos => rfl
  | thread hcore hcur hs => rw [Kernel.fixed, hs.frame.kernel.tcbs]; rfl
  | construct hcore hcur hpc hd hprio => exact hconstructed ..
  | block | ret | terminate | win | tearDown => exact Kernel.fixed_update rfl (by rfl) u
  | ready hcore hcur hafter hpin =>
    have hf : ReadyFrame cfg _ _ _ _ _ _ _ _ := hafter.frame
    rw [hf.kernel, Kernel.fixed_makeReady]
  | post hcore hcur hafter hpin hroom =>
    have hf : ReadyFrame cfg _ _ _ _ _ _ _ _ := hafter.frame
    rw [hf.kernel]
    rfl
  | boot hrun hc hcore hpop hsel hsim =>
    refine (Kernel.fixed_dispatch _ _ _ _).trans ?_
    rw [Kernel.fixed, (Kernel.popNext_fields _ hpop).1]
    rfl
  | coreMove hmove => rfl
  | drainOne hcore hin => exact Kernel.fixed_makeReady ..
  | switch hc hcore hcur hnr hpop hsel hsim =>
    refine (Kernel.fixed_dispatch _ _ _ _).trans ?_
    rw [Kernel.fixed, (Kernel.popNext_fields _ hpop).1]
    exact Kernel.fixed_rotated ..

theorem Trans.priority {l : Label} (ht : Trans cfg m a l m' a') (h : Sim cfg m a)
    (hu : a.phase u ≠ .unborn) : m'.kernel.priority u = m.kernel.priority u := by
  refine congrArg Prod.fst (ht.fixed (u := u) ?_)
  rintro rfl
  exact hu ((h.born _).mpr (Nat.le_refl _))

/-! ## Before `kernel::start` -/

theorem Trans.isRunning {l : Label} (ht : Trans cfg m a l m' a') :
    m'.kernel.isRunning = m.kernel.isRunning ∨ m'.core = m.core ∧ m'.kernel.isRunning = true := by
  cases ht with
  | constructBoot hrun hd hprio => exact .inl rfl
  | start hrun hpos => exact .inr ⟨rfl, rfl⟩
  | thread hcore hcur hs => exact .inl hs.frame.kernel.isRunning
  | construct | block | ret | terminate | win | tearDown => exact .inl rfl
  | ready hcore hcur hafter | post hcore hcur hafter =>
    have hf : ReadyFrame cfg _ _ _ _ _ _ _ _ := hafter.frame
    exact .inl (by rw [hf.kernel]; rfl)
  | boot hrun hc hcore hpop hsel hsim => exact .inl (Kernel.popNext_fields _ hpop).2.2.1
  | coreMove hmove => exact .inl rfl
  | drainOne hcore hin => exact .inl rfl
  | switch hc hcore hcur hnr hpop hsel hsim =>
    exact .inl ((Kernel.popNext_fields _ hpop).2.2.1.trans (m.kernel.rotated_fields _ _).2.2.1)

/-- No core runs before `kernel::start`. -/
def CoresWait (m : Machine) : Prop :=
  m.kernel.isRunning = false → ∀ c, m.core c = .boot

theorem Trans.coresWait {l : Label} (ht : Trans cfg m a l m' a') (hI : CoresWait m) :
    CoresWait m' := by
  intro hrun'
  have hrun : m.kernel.isRunning = false := by
    rcases ht.isRunning with h | ⟨-, h⟩
    · rw [← h, hrun']
    · rw [hrun'] at h
      cases h
  have hboot := hI hrun
  have habsurd : ∀ {c pc}, m.core c = pc → pc ≠ .boot → ∀ d, m'.core d = .boot :=
    fun hc hpc => absurd ((hboot _).symm.trans hc).symm hpc
  cases ht with
  | constructBoot hrun hd hprio => exact hboot
  | start hrun hpos => exact hboot
  | thread hcore | construct hcore | block hcore | ret hcore | terminate hcore | win hcore
  | tearDown hcore | ready hcore | post hcore => exact habsurd hcore nofun
  | boot hstarted hc hcore hpop hsel hsim => rw [hrun] at hstarted; cases hstarted
  | coreMove hmove =>
    cases hmove with
    | pump hpc | halt hpc | reschedule hpc | drained hpc => exact habsurd hpc nofun
  | drainOne hcore hin => exact habsurd hcore nofun
  | switch hc hcore hcur hnr hpop hsel hsim => exact habsurd hcore nofun

/-- The cores run while a thread executes. -/
theorem Sim.isRunning_of_thread (h : Sim cfg m a) (hwait : CoresWait m)
    (hcore : m.core c = .thread) (hcur : m.kernel.current c = some t) :
    m.kernel.isRunning = true ∧ c < cfg.cores := by
  constructor
  · cases hrun : m.kernel.isRunning with
    | true => rfl
    | false =>
      rw [hwait hrun c] at hcore
      cases hcore
  · obtain ⟨hpin, hon⟩ := h.current c t hcur
    rw [← hpin]
    refine (h.thread t).core_lt fun hp => ?_
    rw [hp] at hon
    cases hon

/-! ## Wait groups -/

/-- `try_win` by thread `t` of core `c` on the group of `x`. -/
def WinsGroup (m : Machine) (a : Life) (l : Label) (m' : Machine) (a' : Life) (x : ThreadRef) :
    Prop :=
  ∃ c b t s n w i ws, l = .core c (.next b) ∧
    m.core c = .thread ∧ m.kernel.current c = some t ∧
    m.fiber t = .tryWin s n w n.owner n.owner i ∧ n.owner = x ∧
    m' = m.goto (m.kernel.win n.owner i s.acquired) t (.teardown s n.owner n.owner) ∧
    a.phase x = .waiting ws ∧ a' = a.setPhase n.owner (.won t ws)

/-- What a step does to a wait group: nothing, it begins it anew, or it wins it. -/
theorem Trans.waitGroup {l : Label} (ht : Trans cfg m a l m' a') (x : ThreadRef) :
    (m'.kernel.tcbs x).waitGroup = (m.kernel.tcbs x).waitGroup ∨
      (x = .user m.kernel.threads ∨
        ∃ c act, l = .core c act ∧ m.core c = .thread ∧ m.kernel.current c = some x) ∧
        m'.kernel.done x = false ∨
      WinsGroup m a l m' a' x := by
  cases ht with
  | constructBoot hrun hd hprio =>
    rcases m.kernel.waitGroup_constructed _ _ _ x with h | ⟨hx, h⟩
    · exact .inl ((Kernel.waitGroup_makeReady _ _ _ _).trans h)
    · refine .inr (.inl ⟨.inl hx, ?_⟩)
      rw [Kernel.done, Kernel.waitGroup_makeReady]
      exact h
  | start hrun hpos => exact .inl rfl
  | thread hcore hcur hs => exact .inl (by rw [hs.frame.kernel.tcbs])
  | construct hcore hcur hpc hd hprio =>
    rcases m.kernel.waitGroup_constructed _ _ _ x with h | ⟨hx, h⟩
    · exact .inl h
    · exact .inr (.inl ⟨.inl hx, h⟩)
  | @block c t act ws p links hcore hcur hpc hpos hlen hnd hsim =>
    by_cases hx : x = t
    · subst hx
      refine .inr (.inl ⟨.inr ⟨c, act, rfl, hcore, hcur⟩, ?_⟩)
      simp [Machine.goto, Kernel.blockOn, Kernel.done, Kernel.beginGroup]
    · simp [Machine.goto, Kernel.blockOn, Function.update_of_ne hx]
  | ret hcore hcur hpc => exact .inl (Kernel.waitGroup_update rfl (by rfl) x)
  | terminate hcore hcur hpc => exact .inl (Kernel.waitGroup_update rfl (by rfl) x)
  | @win c t b s n w i ws hcore hcur hpc hx =>
    by_cases hn : n.owner = x
    · subst hn
      exact .inr (.inr ⟨c, b, t, s, n, w, i, ws, rfl, hcore, hcur, hpc, rfl, rfl, hx, rfl⟩)
    · simp [Machine.goto, Kernel.win, Kernel.modifyTcb, Function.update_of_ne (Ne.symm hn)]
  | tearDown hcore hcur hpc hx hsim => exact .inl (Kernel.waitGroup_update rfl (by rfl) x)
  | ready hcore hcur hafter hpin =>
    have hf : ReadyFrame cfg _ _ _ _ _ _ _ _ := hafter.frame
    exact .inl (by rw [hf.kernel, Kernel.waitGroup_makeReady])
  | post hcore hcur hafter hpin hroom =>
    have hf : ReadyFrame cfg _ _ _ _ _ _ _ _ := hafter.frame
    exact .inl (by rw [hf.kernel]; rfl)
  | boot hrun hc hcore hpop hsel hsim =>
    refine .inl ((Kernel.waitGroup_dispatch _ _ _ _).trans ?_)
    rw [(Kernel.popNext_fields _ hpop).1]
  | coreMove hmove => exact .inl rfl
  | @drainOne c y rest hcore hin => exact .inl (Kernel.waitGroup_makeReady _ c y x)
  | switch hc hcore hcur hnr hpop hsel hsim =>
    refine .inl ((Kernel.waitGroup_dispatch _ _ _ _).trans ?_)
    rw [(Kernel.popNext_fields _ hpop).1, Kernel.waitGroup_rotated]

/-- A group is won by `try_win` only. -/
theorem Trans.won {l : Label} (ht : Trans cfg m a l m' a') (hold : m.kernel.done x = false)
    (hnew : m'.kernel.done x = true) : ∃ c b t s n w i ws, l = .core c (.next b) ∧
      m.core c = .thread ∧ m.kernel.current c = some t ∧
      m.fiber t = .tryWin s n w n.owner n.owner i ∧ n.owner = x ∧
      m' = m.goto (m.kernel.win n.owner i s.acquired) t (.teardown s n.owner n.owner) ∧
      a' = a.setPhase n.owner (.won t ws) := by
  rcases ht.waitGroup x with hsame | ⟨-, hdone⟩ |
    ⟨c, b, t, s, n, w, i, ws, hl, hcore, hcur, hpc, hn, hm', -, ha'⟩
  · rw [Kernel.done, hsame, ← Kernel.done, hold] at hnew
    cases hnew
  · rw [hdone] at hnew
    cases hnew
  · exact ⟨c, b, t, s, n, w, i, ws, hl, hcore, hcur, hpc, hn, hm', ha'⟩

/-! ## Fibers -/

/-- A thread moves in its code only by steps of its own core. -/
theorem Trans.fiber {l : Label} (ht : Trans cfg m a l m' a') (t : ThreadRef) :
    m'.fiber t = m.fiber t ∨
      ∃ c act, l = .core c act ∧ m.core c = .thread ∧ m.kernel.current c = some t := by
  have hacting : ∀ {c : Nat} {u : ThreadRef} {act : Act} {pc : ThreadPc} {f : ThreadRef → ThreadPc},
      m.core c = .thread → m.kernel.current c = some u → f = Function.update m.fiber u pc →
      l = .core c act → f t = m.fiber t ∨
        ∃ c act, l = .core c act ∧ m.core c = .thread ∧ m.kernel.current c = some t := by
    intro c u act pc f hcore hcur hf hl
    by_cases hu : t = u
    · exact .inr ⟨c, act, hl, hcore, hu ▸ hcur⟩
    · exact .inl (by rw [hf, Function.update_of_ne hu])
  cases ht with
  | constructBoot hrun hd hprio => exact .inl rfl
  | start hrun hpos => exact .inl rfl
  | thread hcore hcur hs => exact hacting hcore hcur hs.frame.fiber rfl
  | construct hcore hcur | block hcore hcur | ret hcore hcur | terminate hcore hcur
  | win hcore hcur | tearDown hcore hcur => exact hacting hcore hcur rfl rfl
  | ready hcore hcur hafter | post hcore hcur hafter =>
    have hf : ReadyFrame cfg _ _ _ _ _ _ _ _ := hafter.frame
    exact hacting hcore hcur hf.fiber rfl
  | boot | coreMove | drainOne | switch => exact .inl rfl

/-- The thread that takes this step. -/
def Machine.acting (m : Machine) : Label → Option ThreadRef
  | .core c _ => if m.core c = .thread then m.kernel.current c else none
  | _ => none

theorem Machine.acting_core (hcore : m.core c = .thread) (hcur : m.kernel.current c = some t)
    {act : Act} : m.acting (.core c act) = some t := by
  rw [acting, if_pos hcore, hcur]

/-- A thread takes a step as the current thread of a core that is in its fiber. -/
theorem Machine.acting_some {l : Label} (h : m.acting l = some t) :
    ∃ c act, l = .core c act ∧ m.core c = .thread ∧ m.kernel.current c = some t := by
  cases l with
  | core c act =>
    rw [acting] at h
    split at h
    · next hcore => exact ⟨c, act, rfl, hcore, h⟩
    · cases h
  | _ => cases h

/-- A thread whose launcher has ended takes no step. -/
theorem Machine.not_acting_of_finished {l : Label} (hs : m.step cfg l = .ok m')
    (hx : m.fiber x = .finished) : m.acting l ≠ some x := by
  intro hact
  obtain ⟨c, act, rfl, hcore, hcur⟩ := m.acting_some hact
  rw [step] at hs
  split at hs
  · cases act <;> simp [coreStep, hcore, hcur, hx, threadNext] at hs
  · cases hs

theorem Trans.finished {l : Label} (ht : Trans cfg m a l m' a') (hs : m.step cfg l = .ok m')
    (hx : m.fiber x = .finished) : m'.fiber x = .finished := by
  refine ((ht.fiber x).resolve_right ?_).trans hx
  rintro ⟨c, act, rfl, hcore, hcur⟩
  exact Machine.not_acting_of_finished hs hx (Machine.acting_core hcore hcur)

theorem Sim.dead_of_finished (h : Sim cfg m a) (hpc : m.fiber t = .finished) :
    a.phase t = .dead := by
  have hadm := (h.thread t).admits
  rw [hpc] at hadm
  cases hphase : a.phase t <;> rw [hphase] at hadm <;> first | rfl | cases hadm

/-! ## Phases and thread states -/

theorem Sim.dead_iff (h : Sim cfg m a) (t : ThreadRef) :
    m.kernel.state t = .terminated ↔ a.phase t = .dead := by
  rw [(h.thread t).state]
  cases a.phase t <;> simp [Phase.state]

theorem Sim.running_iff (h : Sim cfg m a) (t : ThreadRef) :
    m.kernel.state t = .running ↔ a.phase t = .running := by
  rw [(h.thread t).state]
  cases a.phase t <;> simp [Phase.state]

/-- A thread that has not been constructed has not run. -/
theorem Sim.unborn_fiber (h : Sim cfg m a) {i : Nat} (hunborn : a.phase (.user i) = .unborn) :
    m.fiber (.user i) = .user := by
  have hadm := (h.thread (.user i)).admits
  rw [hunborn] at hadm
  rcases Bool.or_eq_true _ _ ▸ hadm with hpc | hpc
  · exact of_decide_eq_true hpc
  · exact absurd ((h.thread (.user i)).idle_fiber.mp (of_decide_eq_true hpc)) (by nofun)

/-! ## Selecting a thread -/

theorem Life.Selects.phase {next : ThreadRef} (h : a.Selects c next a') :
    a'.phase = Function.update a.phase next .running := by
  cases h <;> rfl

/-- A core selects a ready thread or its idle thread. -/
theorem Sim.selects_phase (h : Sim cfg m a) (hsel : a.Selects c t a') :
    a.phase t = .ready ∨ a.phase t = .running ∨ a.phase t = .unborn := by
  cases hsel with
  | idle hempty =>
    rcases (h.idle c).2.2 with ⟨hp, -⟩ | ⟨hp | hp, -⟩
    · exact .inr (.inr hp)
    · exact .inl hp
    · exact .inr (.inl hp)
  | head hq hfirst => exact .inl ((h.queued c _ t).mp (hq ▸ List.mem_cons_self)).1

theorem Life.rotated_phase {p : Nat} (hu : u ≠ t) : (a.rotated c p t).phase u = a.phase u := by
  rw [Life.rotated]
  split
  · split <;> exact Function.update_of_ne hu _ _
  · rfl

theorem Life.Selects.waiters {next : ThreadRef} (h : a.Selects c next a') :
    a'.waiters = a.waiters := by
  cases h <;> rfl

theorem Life.rotated_waiters (a : Life) (c p : Nat) (t : ThreadRef) :
    (a.rotated c p t).waiters = a.waiters := by
  rw [Life.rotated]
  split
  · split <;> rfl
  · rfl

theorem Life.enqueue_queue_of_ne {d p q : Nat} (hd : d ≠ c) :
    (a.enqueue c p t).queue (d, q) = a.queue (d, q) :=
  Function.update_of_ne (fun h => hd (Prod.ext_iff.mp h).1) _ _

theorem Life.Selects.queue_of_ne {next : ThreadRef} {d p : Nat} (h : a.Selects c next a')
    (hd : d ≠ c) : a'.queue (d, p) = a.queue (d, p) := by
  cases h with
  | idle hempty => rfl
  | head hq hfirst => exact Function.update_of_ne (fun h => hd (Prod.ext_iff.mp h).1) _ _

theorem Life.rotated_queue_of_ne {d p q : Nat} (hd : d ≠ c) :
    (a.rotated c p t).queue (d, q) = a.queue (d, q) := by
  rw [Life.rotated]
  split
  · split
    · rfl
    · exact Life.enqueue_queue_of_ne hd
  · rfl

/-- What a core has done once `start` or `reschedule` has selected `next`: its
current thread is `next`, the phases of other threads than `next` and the
outgoing one are as they were. -/
structure Selected (m : Machine) (a : Life) (c : Nat) (m' : Machine) (a' : Life)
    (next : ThreadRef) : Prop where
  core : m'.core = Function.update m.core c .thread
  current : m'.kernel.current c = some next
  running : a'.phase next = .running
  phase : ∀ u, u ≠ next → m.kernel.current c ≠ some u → a'.phase u = a.phase u
  fiber : m'.fiber = m.fiber

/-- A step of a core at `start` or at the switch of `reschedule` selects a thread. -/
theorem Trans.selected {b : Bool} (ht : Trans cfg m a (.core c (.next b)) m' a')
    (hcore : m.core c = .boot ∨ m.core c = .switch) : ∃ next, Selected m a c m' a' next := by
  cases ht with
  | @boot _ _ next k _ hrun hc _ hpop hsel hsim =>
    refine ⟨next, rfl, ?_, by rw [hsel.phase, Function.update_self], fun u hu _ => ?_, rfl⟩
    · exact (Kernel.current_dispatch k c c next).trans (if_pos rfl)
    · rw [hsel.phase, Function.update_of_ne hu]
  | @switch _ t next _ k _ hc _ hcur hnr hpop hsel hsim =>
    refine ⟨next, rfl, ?_, by rw [hsel.phase, Function.update_self], fun u hu hcu => ?_, rfl⟩
    · exact (Kernel.current_dispatch k c c next).trans (if_pos rfl)
    · have hut : u ≠ t := fun he => hcu (he ▸ hcur)
      rw [hsel.phase, Function.update_of_ne hu, Life.rotated_phase hut]
  | coreMove hmove => exact (hcore.elim hmove.core.1 hmove.ne_switch).elim
  | _ => simp_all

/-! ## Threads that are constructed or end -/

/-- Moving a thread between phases other than `dead` ends no thread. -/
theorem Life.dead_update {phase : ThreadRef → Phase} {φ : Phase} (hold : phase x ≠ .dead)
    (hnew : φ ≠ .dead) (u : ThreadRef) :
    Function.update phase x φ u = .dead ↔ phase u = .dead := by
  by_cases hu : u = x
  · subst hu
    simp [hold, hnew]
  · rw [Function.update_of_ne hu]

theorem Life.dead_rotated (p : Nat) (u : ThreadRef) :
    (a.rotated c p t).phase u = .dead ↔ a.phase u = .dead := by
  unfold Life.rotated
  split_ifs with hrun
  · exact Life.dead_update (by simp [hrun]) (by nofun) u
  · exact Life.dead_update (by simp [hrun]) (by nofun) u
  · exact Iff.rfl

/-- A core that switches threads selects none that has ended. -/
theorem Sim.rotated_selects_ne_dead (h : Sim cfg m a) {p : Nat} {next : ThreadRef}
    (hsel : (a.rotated c p t).Selects c next a') : a.phase next ≠ .dead := by
  cases hsel with
  | idle hempty => rcases (h.idle c).2.2 with ⟨hp, -⟩ | ⟨hp | hp, -⟩ <;> simp [hp]
  | @head p' _ rest hq hfirst =>
    have hmem : next ∈ (a.rotated c p t).queue (c, p') := by simp [hq]
    have hold : next ∈ a.queue (c, p') → a.phase next ≠ .dead := fun hin => by
      rw [((h.queued c p' next).mp hin).1]
      nofun
    unfold Life.rotated at hmem
    split_ifs at hmem with hrun hidle
    · exact hold hmem
    · simp only [Life.enqueue, Function.update_apply] at hmem
      split_ifs at hmem with hp
      · rcases List.mem_append.mp hmem with hin | hin
        · obtain ⟨-, rfl⟩ := Prod.mk.inj hp
          exact hold hin
        · rw [List.mem_singleton.mp hin, hrun]
          nofun
      · exact hold hmem
    · exact hold hmem

theorem Phase.claim_ne_dead {φ : Phase} {y : ThreadRef × Claim} (h : φ.claim = some y) :
    φ ≠ .dead := by
  rintro rfl
  cases h

/-- What a step does to the number of threads and to who has ended: it constructs a
thread, or an entry function returns, or neither. -/
inductive Turnover (m : Machine) (a : Life) (l : Label) (m' : Machine) (a' : Life) : Prop
  | construct (hthreads : m'.kernel.threads = m.kernel.threads + 1)
    (hnew : a'.phase (.user m.kernel.threads) ≠ .dead)
    (hdead : ∀ u, u ≠ .user m.kernel.threads → (a'.phase u = .dead ↔ a.phase u = .dead))
  | ret {c : Nat} {t : ThreadRef} (hl : l = .core c .ret) (hcur : m.kernel.current c = some t)
    (hpc : m.fiber t = .user) (hrun : a.phase t = .running)
    (hthreads : m'.kernel.threads = m.kernel.threads)
    (hdead : ∀ u, a'.phase u = .dead ↔ a.phase u = .dead ∨ u = t)
  | stay (hthreads : m'.kernel.threads = m.kernel.threads)
    (hdead : ∀ u, a'.phase u = .dead ↔ a.phase u = .dead)

theorem Trans.turnover {l : Label} (ht : Trans cfg m a l m' a') (h : Sim cfg m a) :
    Turnover m a l m' a' := by
  cases ht with
  | constructBoot hrun hd hprio =>
    refine .construct rfl ?_ fun u hu => ?_
    · show Function.update a.phase _ Phase.ready _ ≠ _
      rw [Function.update_self]
      simp
    · show Function.update a.phase _ Phase.ready u = _ ↔ _
      rw [Function.update_of_ne hu]
  | start hrun hpos => exact .stay rfl fun _ => Iff.rfl
  | thread hcore hcur hs => exact .stay hs.frame.kernel.threads fun _ => Iff.rfl
  | @construct c t priority affinity d hcore hcur hpc hd hprio =>
    refine .construct rfl ?_ fun u hu => ?_
    · show Function.update a.phase _ (Phase.pinned t) _ ≠ _
      rw [Function.update_self]
      simp
    · show Function.update a.phase _ (Phase.pinned t) u = _ ↔ _
      rw [Function.update_of_ne hu]
  | @block c t act ws p links hcore hcur hpc hpos hlen hnd hsim =>
    refine .stay rfl fun u => Life.dead_update ?_ (by simp) u
    -- a thread that blocks is in a call of the application, so it has not ended
    intro hdead
    have hadm := (h.thread t).admits
    rw [hdead] at hadm
    rcases hpc with ⟨hpc, -⟩ | ⟨q, hpc, -⟩ <;>
      · rw [hpc] at hadm
        cases hadm
  | @ret c t hcore hcur hpc =>
    have hrun : a.phase t = .running := by
      rcases h.acting_phase hcore hcur with ⟨hrun, -⟩ | ⟨-, ws, p, he⟩ | ⟨-, hex⟩
      · exact hrun
      · simp [hpc] at he
      · simp [hpc, ThreadPc.exiting] at hex
    refine .ret rfl hcur hpc hrun rfl fun u => ?_
    show Function.update a.phase t Phase.dead u = .dead ↔ _
    by_cases hu : u = t
    · subst hu
      simp
    · simp [hu]
  | terminate hcore hcur hpc => exact .stay rfl fun _ => Iff.rfl
  | win hcore hcur hpc hx =>
    exact .stay rfl fun u => Life.dead_update (by simp [hx]) (by simp) u
  | tearDown hcore hcur hpc hx hsim =>
    exact .stay rfl fun u => Life.dead_update (by simp [hx]) (by simp) u
  | ready hcore hcur hafter hpin =>
    have hf : ReadyFrame cfg _ _ _ _ _ _ _ _ := hafter.frame
    refine .stay (by rw [hf.kernel]; rfl) fun u => Life.dead_update ?_ (by simp) u
    exact Phase.claim_ne_dead ((h.claims _ _ _).mp hf.claim)
  | @post c t x b κ pc m' hcore hcur hafter hpin hroom =>
    have hf : ReadyFrame cfg _ _ _ _ _ _ _ _ := hafter.frame
    refine .stay (by rw [hf.kernel]; rfl) fun u => Life.dead_update ?_ ?_ u
    · exact Phase.claim_ne_dead ((h.claims _ _ _).mp hf.claim)
    · cases a.phase x <;> simp [Phase.afterPost]
  | boot hrun hc hcore hpop hsel hsim =>
    refine .stay (congrArg Prod.fst (Kernel.popNext_fields _ hpop).2.1) fun u => ?_
    rw [hsel.phase]
    refine Life.dead_update ?_ (by simp) u
    rcases h.selects_phase hsel with hp | hp | hp <;> simp [hp]
  | coreMove hmove => exact .stay rfl fun _ => Iff.rfl
  | @drainOne c x rest hcore hin =>
    refine .stay rfl fun u => Life.dead_update ?_ (by simp) u
    intro hdead
    have hmem : x ∈ (m.kernel.schedulers c).inbox := by simp [hin]
    have := (((h.inbox c).2 x).mp hmem).1
    rw [hdead] at this
    cases this
  | @switch c t next b k a' hc hcore hcur hnr hpop hsel hsim =>
    refine .stay ((congrArg Prod.fst (Kernel.popNext_fields _ hpop).2.1).trans
      (m.kernel.rotated_fields c t).2.1) fun u => ?_
    rw [hsel.phase]
    refine Iff.trans (Life.dead_update ?_ (by simp) u) (Life.dead_rotated _ u)
    rw [Ne, Life.dead_rotated]
    exact h.rotated_selects_ne_dead hsel

/-! ## Other cores -/

/-- A step of core `c` does not touch the scheduler fiber and the ready matrix of
another core. -/
theorem Trans.other_core {act : Act} (ht : Trans cfg m a (.core c act) m' a') {d : Nat}
    (hd : d ≠ c) : m'.core d = m.core d ∧ ∀ p, a'.queue (d, p) = a.queue (d, p) := by
  have hdep : ∀ {f : Nat → CorePc} {P : Prop},
      f = m.core ∨ f = Function.update m.core c .pump ∧ P → f d = m.core d := by
    rintro f P (rfl | ⟨rfl, -⟩)
    · rfl
    · exact Function.update_of_ne hd _ _
  cases ht with
  | thread hcore hcur hs => exact ⟨hdep hs.frame.core, fun _ => rfl⟩
  | construct | block | ret | terminate | win | tearDown => exact ⟨rfl, fun _ => rfl⟩
  | ready hcore hcur hafter hpin =>
    have hf : ReadyFrame cfg _ _ _ _ _ _ _ _ := hafter.frame
    exact ⟨hdep hf.core, fun p => Life.enqueue_queue_of_ne hd⟩
  | post hcore hcur hafter hpin hroom =>
    have hf : ReadyFrame cfg _ _ _ _ _ _ _ _ := hafter.frame
    exact ⟨hdep hf.core, fun p => rfl⟩
  | boot hrun hc hcore hpop hsel hsim =>
    exact ⟨Function.update_of_ne hd _ _, fun p => hsel.queue_of_ne hd⟩
  | coreMove hmove => exact ⟨Function.update_of_ne hd _ _, fun p => rfl⟩
  | drainOne hcore hin => exact ⟨rfl, fun p => Life.enqueue_queue_of_ne hd⟩
  | switch hc hcore hcur hnr hpop hsel hsim =>
    exact ⟨Function.update_of_ne hd _ _,
      fun p => (hsel.queue_of_ne hd).trans (Life.rotated_queue_of_ne hd)⟩

end Cortos
