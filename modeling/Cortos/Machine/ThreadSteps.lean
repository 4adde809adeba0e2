import Cortos.Machine.Lifecycle

/-!
# Steps of a thread keep the simulation relation

A step of a thread touches its own fiber and at most one thread `x`, itself or
another. `ThreadStep` lists what has to be checked of such a step;
`ThreadStep.sim` supplies everything about the untouched threads and cores.
One lemma for each way in which a thread changes the kernel state then gives
the relation after it: moving on (`Sim.move`), exiting (`Sim.ret`,
`Sim.terminate`), blocking (`Sim.block`), winning a group (`Sim.win`), tearing a
wait down (`Sim.tearDown`), readying (`Sim.makeReady`, `Sim.post`) and
constructing (`Sim.construct`).
-/

namespace Cortos

open Lib WaitNodePool

variable {cfg : Config} {m m' : Machine} {a a' : Life} {c : Nat} {t x : ThreadRef}

/-! ## Frames -/

namespace Sim

theorem executing (h : Sim cfg m a) (hcore : m.core c = .thread)
    (hcur : m.kernel.current c = some t) : m.Executing t := by
  have hpin := (h.current c t hcur).1
  exact ⟨hpin ▸ hcore, hpin ▸ hcur⟩

/-- The ready queues are untouched when `x` is neither ready before nor after. -/
theorem queued_frame (h : Sim cfg m a) {f : ThreadRef → Phase}
    (htcb : ∀ u, u ≠ x → m'.kernel.tcbs u = m.kernel.tcbs u)
    (hphase : ∀ u, u ≠ x → f u = a.phase u) (hx : a.phase x ≠ .ready) (hx' : f x ≠ .ready) :
    ∀ d p u, u ∈ a.queue (d, p) ↔ f u = .ready ∧ u.isIdle = false ∧
      m'.kernel.pinnedCore u = d ∧ m'.kernel.priority u = p := by
  intro d p u
  rw [h.queued]
  by_cases hu : u = x
  · subst hu
    simp [hx, hx']
  · simp [Kernel.pinnedCore, Kernel.priority, htcb u hu, hphase u hu]

/-- The inboxes are untouched when `x` is in none before or after. -/
theorem inbox_frame (h : Sim cfg m a) {f : ThreadRef → Phase}
    (hin : ∀ d, (m'.kernel.schedulers d).inbox = (m.kernel.schedulers d).inbox)
    (htcb : ∀ u, u ≠ x → m'.kernel.tcbs u = m.kernel.tcbs u)
    (hphase : ∀ u, u ≠ x → f u = a.phase u)
    (hx : (a.phase x).inInbox = false) (hx' : (f x).inInbox = false) :
    ∀ d, (m'.kernel.schedulers d).inbox.Nodup ∧
      ∀ u, u ∈ (m'.kernel.schedulers d).inbox ↔
        (f u).inInbox = true ∧ m'.kernel.pinnedCore u = d := by
  intro d
  rw [hin]
  refine ⟨(h.inbox d).1, fun u => ?_⟩
  rw [(h.inbox d).2]
  by_cases hu : u = x
  · subst hu
    simp [hx, hx']
  · simp [Kernel.pinnedCore, htcb u hu, hphase u hu]

/-- The wait structures are untouched when `x` holds the same nodes. -/
theorem waiting_frame (h : Sim cfg m a) {k : Kernel} {f : ThreadRef → Phase}
    (hl : k.waiters = m.kernel.waiters)
    (hp : ∀ u, (k.tcbs u).waitNodes = (m.kernel.tcbs u).waitNodes)
    (hphase : ∀ u, u ≠ x → f u = a.phase u) (hx : (f x).held = (a.phase x).held) :
    WaitRep cfg k (fun u => (f u).held) a.waiters := by
  have hheld : (fun u => (f u).held) = fun u => (a.phase u).held := by
    funext u
    by_cases hu : u = x
    · subst hu
      exact hx
    · rw [hphase u hu]
  rw [hheld]
  exact h.waiting.congr hl hp

/-- No thread is born or unborn when `x` is not. -/
theorem born_frame (h : Sim cfg m a) {k : Kernel} {f : ThreadRef → Phase}
    (hthreads : k.threads = m.kernel.threads) (hphase : ∀ u, u ≠ x → f u = a.phase u)
    (hx : f x = .unborn ↔ a.phase x = .unborn) :
    ∀ n, f (.user n) = .unborn ↔ k.threads ≤ n := by
  intro n
  rw [hthreads, ← h.born]
  by_cases hu : .user n = x
  · rw [hu]
    exact hx
  · rw [hphase _ hu]

end Sim

/-! ## Steps of a thread -/

/-- What is to be checked of a step in which the current thread `t` of core `c`
acts on thread `x`, which may be `t` itself. -/
structure ThreadStep (cfg : Config) (m : Machine) (a : Life) (c : Nat) (t x : ThreadRef)
    (m' : Machine) (a' : Life) : Prop where
  core : m'.core = m.core ∨ m'.core = Function.update m.core c .pump
  fiber : ∀ u, u ≠ t → m'.fiber u = m.fiber u
  waits : ∀ u, u ≠ x → m'.waits u = m.waits u
  waits_le : m.waits x ≤ m'.waits x
  tcb : ∀ u, u ≠ x → m'.kernel.tcbs u = m.kernel.tcbs u
  pinned : m'.kernel.pinnedCore x = m.kernel.pinnedCore x ∨ a.phase x = .unborn
  phase : ∀ u, u ≠ x → a'.phase u = a.phase u
  currentThread : ∀ d, m'.kernel.current d = m.kernel.current d
  idleThread : ∀ d, (m'.kernel.schedulers d).idleThread = (m.kernel.schedulers d).idleThread
  ready : ReadyRep m'.kernel a'.queue
  queued : ∀ d p u, u ∈ a'.queue (d, p) ↔ a'.phase u = .ready ∧ u.isIdle = false ∧
    m'.kernel.pinnedCore u = d ∧ m'.kernel.priority u = p
  waiting : WaitRep cfg m'.kernel (fun u => (a'.phase u).held) a'.waiters
  acting : ThreadOk cfg m' (a'.phase t) t
  acted : ThreadOk cfg m' (a'.phase x) x
  born : ∀ n, a'.phase (.user n) = .unborn ↔ m'.kernel.threads ≤ n
  idle : x.isIdle = true → a'.phase x = a.phase x ∧
    m'.kernel.pinnedCore x = m.kernel.pinnedCore x
  onCore : ∀ d, m.kernel.current d = some x → (a'.phase x).onCore (m'.core d) = true
  inbox : ∀ d, (m'.kernel.schedulers d).inbox.Nodup ∧
    ∀ u, u ∈ (m'.kernel.schedulers d).inbox ↔
      (a'.phase u).inInbox = true ∧ m'.kernel.pinnedCore u = d
  claims : Claims m'.fiber a'.phase

theorem ThreadStep.sim (h : Sim cfg m a) (hcore : m.core c = .thread)
    (hcur : m.kernel.current c = some t) (hs : ThreadStep cfg m a c t x m' a') :
    Sim cfg m' a' where
  ready := hs.ready
  queued := hs.queued
  waiting := hs.waiting
  born := hs.born
  inbox := hs.inbox
  claims := hs.claims
  boot d := by
    rw [hs.currentThread, ← h.boot]
    rcases hs.core with hc | hc
    · rw [hc]
    · rw [hc]
      by_cases hd : d = c
      · subst hd
        simp [hcore]
      · rw [Function.update_of_ne hd]
  idle d := by
    obtain ⟨hi, hpin, hph⟩ := h.idle d
    by_cases hx : .idle d = x
    · obtain ⟨h₁, h₂⟩ := hs.idle (by rw [← hx]; rfl)
      rw [hs.idleThread, hx, h₁, h₂, ← hx]
      exact ⟨hi, hpin, hph⟩
    · rw [hs.idleThread, hs.phase _ hx]
      refine ⟨hi, ?_, hph⟩
      rw [Kernel.pinnedCore, hs.tcb _ hx]
      exact hpin
  current d u hu := by
    rw [hs.currentThread] at hu
    obtain ⟨hpin, hon⟩ := h.current d u hu
    by_cases hx : u = x
    · subst hx
      refine ⟨?_, hs.onCore d hu⟩
      rcases hs.pinned with hp | hp
      · rw [hp, hpin]
      · rw [hp] at hon
        cases hm : m.core d <;> simp [Phase.onCore] at hon
    · refine ⟨by rw [Kernel.pinnedCore, hs.tcb u hx]; exact hpin, ?_⟩
      rw [hs.phase u hx]
      rcases hs.core with hc | hc
      · rw [hc]
        exact hon
      · rw [hc]
        by_cases hd : d = c
        · subst hd
          rw [hcore] at hon
          rw [Function.update_self]
          cases hp : a.phase u <;> simp_all [Phase.onCore]
        · rw [Function.update_of_ne hd]
          exact hon
  thread u := by
    by_cases hx : u = x
    · exact hx ▸ hs.acted
    by_cases ht : u = t
    · exact ht ▸ hs.acting
    have hpin : m'.kernel.pinnedCore u = m.kernel.pinnedCore u := by
      rw [Kernel.pinnedCore, hs.tcb u hx]
      rfl
    rw [hs.phase u hx]
    refine (h.thread u).frame (hs.tcb u hx) (hs.fiber u ht) (hs.waits u hx) (fun v => ?_) ?_ ?_
    · by_cases hv : v = x
      · exact hv ▸ hs.waits_le
      · exact Nat.le_of_eq (hs.waits v hv).symm
    · -- only the core of `t` moved, and `u` is not current there
      simp only [Machine.Executing, hpin, hs.currentThread]
      refine and_congr_left fun hu => ?_
      rcases hs.core with hc | hc
      · rw [hc]
      · have hne : m.kernel.pinnedCore u ≠ c := by
          intro he
          rw [he, hcur] at hu
          exact ht (Option.some.inj hu).symm
        rw [hc, Function.update_of_ne hne]
    · rw [hs.currentThread]
      exact fun _ => id

/-- What the current thread of a core in its fiber can be doing: run, block (with
`commence_block` next) or exit. -/
theorem Sim.acting_phase (h : Sim cfg m a) (hcore : m.core c = .thread)
    (hcur : m.kernel.current c = some t) :
    (a.phase t = .running ∧ (m.fiber t).exiting = false) ∨
      ((a.phase t).state = .blocked ∧ ∃ ws p, m.fiber t = .commence ws p) ∨
      (a.phase t = .dead ∧ (m.fiber t).exiting = true) := by
  have hon := (h.current c t hcur).2
  have hadm := (h.thread t).admits
  have hblk := (h.thread t).blocked (h.executing hcore hcur)
  rw [hcore] at hon
  cases hp : a.phase t <;> cases hf : m.fiber t <;>
    simp_all [Phase.onCore, Phase.admits, Phase.state, ThreadPc.suspended, ThreadPc.exiting,
      ThreadPc.blockedOn]

/-- Inside the exit sequence or outside it, the acting thread moves freely. -/
theorem Sim.admits_move (h : Sim cfg m a) (hcore : m.core c = .thread)
    (hcur : m.kernel.current c = some t) {pc : ThreadPc}
    (hfiber : ∀ ws p, m.fiber t ≠ .commence ws p) (hpc : ∀ ws p, pc ≠ .commence ws p)
    (he : pc.exiting = (m.fiber t).exiting) : (a.phase t).admits pc = true := by
  rcases h.acting_phase hcore hcur with ⟨hp, hx⟩ | ⟨-, ws, p, hx⟩ | ⟨hp, hx⟩
  · rw [hp]
    cases pc <;> simp_all [Phase.admits]
  · exact absurd hx (hfiber ws p)
  · rw [hp]
    simp [Phase.admits, he, hx]

/-- Idle threads only run and wait to run. -/
theorem Sim.not_idle (h : Sim cfg m a) (hu : a.phase x ≠ .unborn) (hr : a.phase x ≠ .ready)
    (hn : a.phase x ≠ .running) : x.isIdle = false := by
  cases x with
  | user n => rfl
  | idle d =>
    have := (h.idle d).2.2
    simp [hu, hr, hn] at this

/-- Where the acting thread goes: on in its fiber, or off its core. -/
def Departs (m m' : Machine) (c : Nat) (φ : Phase) (pc : ThreadPc) : Prop :=
  (m'.core = m.core ∧ (φ.state = .blocked → pc.suspended = false)) ∨
    (m'.core = Function.update m.core c .pump ∧ pc.suspended = true)

theorem Departs.core {φ : Phase} {pc : ThreadPc} (h : Departs m m' c φ pc) :
    m'.core = m.core ∨ m'.core = Function.update m.core c .pump :=
  h.imp And.left And.left

/-- The acting thread after its move, when its control block is as before except
for fields the relation reads through `hterm` and `hstate`. -/
theorem Sim.acting (h : Sim cfg m a) (hcore : m.core c = .thread)
    (hcur : m.kernel.current c = some t) {pc : ThreadPc}
    (htcb : m'.kernel.tcbs t = m.kernel.tcbs t) (hfiber : m'.fiber t = pc)
    (hcurrent : m'.kernel.current c = some t)
    (hwaits : m'.waits t = m.waits t) (hdep : Departs m m' c (a.phase t) pc)
    (hadm : (a.phase t).admits pc = true) (hcons : pc.Consistent cfg m'.waits)
    (hidle : pc = .idle ↔ m.fiber t = .idle)
    (hterm : pc = .terminate ↔ m.fiber t = .terminate) :
    ThreadOk cfg m' (a.phase t) t := by
  have hpin := (h.current c t hcur).1
  have hpin' : m'.kernel.pinnedCore t = c := by
    rw [← hpin, Kernel.pinnedCore, htcb]
    rfl
  have ht := h.thread t
  refine
    { state := by simpa [Kernel.state, htcb] using ht.state
      core_lt := by simpa [Kernel.pinnedCore, htcb] using ht.core_lt
      priority_lt := by simpa [Kernel.priority, htcb] using ht.priority_lt
      waiting_done := by simpa [Kernel.done, htcb] using ht.waiting_done
      done_waiting := by simpa [Kernel.done, htcb, hwaits] using ht.done_waiting
      waits_pos := by simpa [hwaits] using ht.waits_pos
      waits_unborn := by simpa [hwaits] using ht.waits_unborn
      admits := hfiber ▸ hadm
      consistent := hfiber ▸ hcons
      executing := ?_
      blocked := ?_
      running := fun _ => hpin' ▸ hcurrent
      inbox_cores := ht.inbox_cores
      terminated := by rw [htcb, hfiber, ne_eq, hterm]; exact ht.terminated
      idle_fiber := by rw [hfiber, hidle]; exact ht.idle_fiber }
  · rw [Machine.Executing, hpin', hfiber]
    rcases hdep with ⟨hc, -⟩ | ⟨-, hsus⟩
    · exact .inl ⟨hc ▸ hcore, hcurrent⟩
    · exact .inr hsus
  · rw [Machine.Executing, hpin', hfiber]
    rintro ⟨hc', -⟩ hb
    rcases hdep with ⟨-, hsus⟩ | ⟨hc, -⟩
    · exact hsus hb
    · rw [hc, Function.update_self] at hc'
      cases hc'

/-- A step that moves the fiber of `t` and changes nothing the relation sees. -/
theorem Sim.move (h : Sim cfg m a) (hcore : m.core c = .thread)
    (hcur : m.kernel.current c = some t) {pc : ThreadPc}
    (hk : Kernel.Same m.kernel m'.kernel) (hfiber : m'.fiber = Function.update m.fiber t pc)
    (hwaits : m'.waits = m.waits) (hdep : Departs m m' c (a.phase t) pc)
    (hadm : (a.phase t).admits pc = true) (hcons : pc.Consistent cfg m.waits)
    (hclaim : pc.claim = (m.fiber t).claim)
    (hidle : pc = .idle ↔ m.fiber t = .idle)
    (hterm : pc = .terminate ↔ m.fiber t = .terminate) : Sim cfg m' a := by
  have hok : ThreadOk cfg m' (a.phase t) t :=
    h.acting hcore hcur (by rw [hk.tcbs]) (by rw [hfiber, Function.update_self])
      ((hk.currentThread c).trans hcur) (by rw [hwaits]) hdep hadm (hwaits ▸ hcons) hidle hterm
  have hpin : ∀ u, m'.kernel.pinnedCore u = m.kernel.pinnedCore u := fun u => by
    rw [Kernel.pinnedCore, hk.tcbs]
    rfl
  have hprio : ∀ u, m'.kernel.priority u = m.kernel.priority u := fun u => by
    rw [Kernel.priority, hk.tcbs]
    rfl
  refine ThreadStep.sim h hcore hcur (x := t)
    { core := hdep.core
      fiber := fun u hu => by rw [hfiber, Function.update_of_ne hu]
      waits := fun _ _ => by rw [hwaits]
      waits_le := by rw [hwaits]
      tcb := fun _ _ => by rw [hk.tcbs]
      pinned := .inl (hpin t)
      phase := fun _ _ => rfl
      currentThread := hk.currentThread
      idleThread := hk.idleThread
      ready := h.ready.congr hk.ready hk.bitmap
      queued := fun d p u => by rw [h.queued, hpin, hprio]
      waiting := h.waiting.congr hk.waiters fun u => by rw [hk.tcbs]
      acting := hok
      acted := hok
      born := fun n => by rw [hk.threads, h.born]
      idle := fun _ => ⟨rfl, hpin t⟩
      onCore := fun d hd => ?_
      inbox := fun d => by simpa [hk.inbox, hpin] using h.inbox d
      claims := by rw [hfiber]; exact h.claims.update_fiber hclaim }
  obtain ⟨hpd, hon⟩ := h.current d t hd
  have hdc : d = c := hpd.symm.trans (h.current c t hcur).1
  subst hdc
  rw [hcore] at hon
  rcases hdep.core with hc | hc
  · rw [hc, hcore]
    exact hon
  · rw [hc, Function.update_self]
    cases hp : a.phase t <;> simp_all [Phase.onCore]

/-! ### Steps of a thread on itself -/

/-- A thread of the application goes from running or dead to another phase
outside the ready matrix and the inboxes: it blocks or exits. -/
theorem Sim.selfStep (h : Sim cfg m a) (hcore : m.core c = .thread)
    (hcur : m.kernel.current c = some t) {b : Tcb} {φ : Phase} {pc : ThreadPc}
    {wl : WaitableRef → List NodeRef} (hidle : t.isIdle = false)
    (hold : a.phase t = .running ∨ a.phase t = .dead)
    (hnew : φ = .dead ∨ ∃ ws, φ = .waiting ws)
    (htcbs : m'.kernel.tcbs = Function.update m.kernel.tcbs t b)
    (hpin : b.pinnedCore = (m.kernel.tcbs t).pinnedCore)
    (hready : m'.kernel.ready = m.kernel.ready)
    (hsched : m'.kernel.schedulers = m.kernel.schedulers)
    (hthreads : m'.kernel.threads = m.kernel.threads)
    (hcore' : m'.core = m.core) (hfiber : m'.fiber = Function.update m.fiber t pc)
    (hwaits : ∀ u, u ≠ t → m'.waits u = m.waits u) (hle : m.waits t ≤ m'.waits t)
    (hclaim : (m.fiber t).claim = none) (hclaim' : pc.claim = none)
    (hwaiting : WaitRep cfg m'.kernel (fun u => (Function.update a.phase t φ u).held) wl)
    (hok : ThreadOk cfg m' φ t) :
    Sim cfg m' { a with phase := Function.update a.phase t φ, waiters := wl } := by
  have htcb : ∀ u, u ≠ t → m'.kernel.tcbs u = m.kernel.tcbs u := fun u hu => by
    rw [htcbs, Function.update_of_ne hu]
  have hphase : ∀ u, u ≠ t → Function.update a.phase t φ u = a.phase u := fun u hu =>
    Function.update_of_ne hu _ _
  have hpin' : m'.kernel.pinnedCore t = m.kernel.pinnedCore t := by
    rw [Kernel.pinnedCore, htcbs, Function.update_self, hpin]
    rfl
  have hok' : ThreadOk cfg m' (Function.update a.phase t φ t) t := by
    rw [Function.update_self]
    exact hok
  refine ThreadStep.sim h hcore hcur (x := t)
    { core := .inl hcore'
      fiber := fun u hu => by rw [hfiber, Function.update_of_ne hu]
      waits := hwaits
      waits_le := hle
      tcb := htcb
      pinned := .inl hpin'
      phase := hphase
      currentThread := fun d => by rw [Kernel.current, hsched]; rfl
      idleThread := fun d => by rw [hsched]
      ready := h.ready.congr hready fun d => by rw [hsched]
      queued := h.queued_frame htcb hphase ?_ ?_
      waiting := hwaiting
      acting := hok'
      acted := hok'
      born := h.born_frame hthreads hphase ?_
      idle := fun hi => absurd hi (by simp [hidle])
      onCore := fun d hd => ?_
      inbox := h.inbox_frame (fun d => by rw [hsched]) htcb hphase ?_ ?_
      claims := ?_ }
  · rcases hold with h | h <;> simp [h]
  · rcases hnew with rfl | ⟨ws, rfl⟩ <;> simp
  · rcases hold with h | h <;> rcases hnew with rfl | ⟨ws, rfl⟩ <;> simp [h]
  · rcases hnew with rfl | ⟨ws, rfl⟩ <;> simp [Phase.onCore]
  · rcases hold with h | h <;> simp [h, Phase.inInbox]
  · rcases hnew with rfl | ⟨ws, rfl⟩ <;> simp [Phase.inInbox]
  · rw [hfiber]
    refine (h.claims.update_fiber (hclaim'.trans hclaim.symm)).update_phase ?_
    rcases hold with h | h <;> rcases hnew with rfl | ⟨ws, rfl⟩ <;> simp [h, Phase.claim]

/-- `entry()` returns. -/
theorem Sim.ret (h : Sim cfg m a) (hcore : m.core c = .thread)
    (hcur : m.kernel.current c = some t) (hpc : m.fiber t = .user) :
    Sim cfg (m.goto (m.kernel.setState t .terminated) t .terminate) (a.setPhase t .dead) := by
  have ht := h.thread t
  have hrun : a.phase t = .running := by
    rcases h.acting_phase hcore hcur with hp | hp | hp <;> simp_all [ThreadPc.exiting]
  have hidle : t.isIdle = false := by
    have := ht.idle_fiber
    simpa [hpc] using this
  have hpin := (h.current c t hcur).1
  rw [hrun] at ht
  refine h.selfStep hcore hcur hidle (.inl hrun) (.inl rfl) rfl rfl rfl rfl rfl rfl rfl
    (fun _ _ => rfl) (Nat.le_refl _) (by rw [hpc]; rfl) rfl ?_ ?_
  · refine h.waiting_frame rfl (fun u => ?_) (fun u hu => Function.update_of_ne hu _ _)
      (by simp [hrun, Phase.held])
    by_cases hu : u = t
    · subst hu
      simp [Machine.goto, Kernel.setState, Kernel.modifyTcb]
    · simp [Machine.goto, Kernel.setState, Kernel.modifyTcb, hu]
  · have hexec := h.executing hcore hcur
    exact
      { state := by
          simp [Machine.goto, Kernel.state, Kernel.setState, Kernel.modifyTcb, Phase.state]
        core_lt := fun _ => by
          simpa [Machine.goto, Kernel.pinnedCore, Kernel.setState, Kernel.modifyTcb] using
            ht.core_lt (by simp)
        priority_lt := by
          simpa [Machine.goto, Kernel.priority, Kernel.setState, Kernel.modifyTcb] using
            ht.priority_lt
        waiting_done := by simp [Phase.isWaiting]
        done_waiting := by
          simpa [Machine.goto, Kernel.done, Kernel.setState, Kernel.modifyTcb, Phase.isWaiting]
            using ht.done_waiting
        waits_pos := by simp [Phase.state]
        waits_unborn := by simp
        admits := by simp [Machine.goto, Phase.admits, ThreadPc.exiting]
        consistent := by simp [Machine.goto, ThreadPc.Consistent]
        executing := .inl (by
          simpa [Machine.Executing, Machine.goto, Kernel.pinnedCore, Kernel.setState,
            Kernel.modifyTcb, Kernel.current] using hexec)
        blocked := by simp [Phase.state]
        running := by simp
        inbox_cores := by simp [Phase.inInbox]
        terminated := by
          simpa [Machine.goto, Kernel.setState, Kernel.modifyTcb] using ht.terminated
        idle_fiber := by simp [Machine.goto, hidle] }

/-- `terminate()` sets its flag and starts to signal the joiners. -/
theorem Sim.terminate (h : Sim cfg m a) (hcore : m.core c = .thread)
    (hcur : m.kernel.current c = some t) (hpc : m.fiber t = .terminate) {s : SignalCall}
    (hs : s.exiting = true) :
    Sim cfg
      (m.goto (m.kernel.modifyTcb t fun b => { b with terminated := true }) t (.pick s)) a := by
  have ht := h.thread t
  have hdead : a.phase t = .dead := by
    rcases h.acting_phase hcore hcur with hp | hp | hp <;> simp_all [ThreadPc.exiting]
  have hidle : t.isIdle = false := by simpa [hpc] using ht.idle_fiber
  have hsame : a = { a with phase := Function.update a.phase t .dead, waiters := a.waiters } := by
    rw [← hdead, Function.update_eq_self]
  rw [hdead] at ht
  rw [hsame]
  refine h.selfStep hcore hcur hidle (.inr hdead) (.inl rfl) rfl rfl rfl rfl rfl rfl rfl
    (fun _ _ => rfl) (Nat.le_refl _) (by rw [hpc]; rfl) rfl ?_ ?_
  · rw [← hdead, Function.update_eq_self]
    refine h.waiting.congr rfl fun u => ?_
    by_cases hu : u = t
    · subst hu
      simp [Machine.goto, Kernel.modifyTcb]
    · simp [Machine.goto, Kernel.modifyTcb, hu]
  · have hexec := h.executing hcore hcur
    exact
      { state := by
          simpa [Machine.goto, Kernel.state, Kernel.modifyTcb] using ht.state
        core_lt := fun _ => by
          simpa [Machine.goto, Kernel.pinnedCore, Kernel.modifyTcb] using ht.core_lt (by simp)
        priority_lt := by
          simpa [Machine.goto, Kernel.priority, Kernel.modifyTcb] using ht.priority_lt
        waiting_done := by simp [Phase.isWaiting]
        done_waiting := by
          simpa [Machine.goto, Kernel.done, Kernel.modifyTcb, Phase.isWaiting]
            using ht.done_waiting
        waits_pos := by simp [Phase.state]
        waits_unborn := by simp
        admits := by simp [Machine.goto, Phase.admits, ThreadPc.exiting, hs]
        consistent := by simp [Machine.goto, ThreadPc.Consistent]
        executing := .inl (by
          simpa [Machine.Executing, Machine.goto, Kernel.pinnedCore,
            Kernel.modifyTcb, Kernel.current] using hexec)
        blocked := by simp [Phase.state]
        running := by simp
        inbox_cores := by simp [Phase.inInbox]
        terminated := by simp [Machine.goto, Kernel.modifyTcb]
        idle_fiber := by simp [Machine.goto, hidle] }

/-- `prepare_block`. -/
theorem Sim.block (h : Sim cfg m a) (hcore : m.core c = .thread)
    (hcur : m.kernel.current c = some t) (hrun : a.phase t = .running)
    (hidle : t.isIdle = false) (hclaim : (m.fiber t).claim = none)
    (hterm : m.fiber t ≠ .terminate) {ws : List WaitableRef} {p : Option Predicate}
    (hpos : 0 < ws.length) (hlen : ws.length ≤ cfg.maxWaitNodes) (hnd : ws.Nodup) :
    ∃ links, m.block cfg t ws p =
        .ok { m.goto (m.kernel.blockOn cfg t ws links) t (.commence ws p) with
          waits := Function.update m.waits t (m.waits t + 1) } ∧
      Sim cfg { m.goto (m.kernel.blockOn cfg t ws links) t (.commence ws p) with
          waits := Function.update m.waits t (m.waits t + 1) } (a.block t ws) := by
  have ht := h.thread t
  rw [hrun] at ht
  obtain ⟨links, hprep, hrep⟩ := h.waiting.prepareBlock (t := t)
    (by simp [hrun, Phase.held]) (by rw [ht.state]; rfl) hpos hlen hnd
  refine ⟨links, by simp [Machine.block, hprep, pure, Except.pure], ?_⟩
  refine h.selfStep hcore hcur hidle (.inl hrun) (.inr ⟨ws, rfl⟩) rfl rfl rfl rfl rfl rfl rfl
    (fun u hu => Function.update_of_ne hu _ _) (by simp) hclaim rfl ?_ ?_
  · have hheld : (fun u => (Function.update a.phase t (.waiting ws) u).held) =
        Function.update (fun u => (a.phase u).held) t ws := by
      funext u
      by_cases hu : u = t
      · subst hu
        simp [Phase.held]
      · simp [hu]
    rw [hheld]
    exact hrep
  · have hexec := h.executing hcore hcur
    exact
      { state := by simp [Machine.goto, Kernel.state, Kernel.blockOn, Phase.state]
        core_lt := fun _ => by
          simpa [Machine.goto, Kernel.pinnedCore, Kernel.blockOn] using ht.core_lt (by simp)
        priority_lt := by
          simpa [Machine.goto, Kernel.priority, Kernel.blockOn] using ht.priority_lt
        waiting_done := fun _ => by
          simp [Machine.goto, Kernel.done, Kernel.blockOn, Kernel.beginGroup]
        done_waiting := fun _ => .inl rfl
        waits_pos := by simp
        waits_unborn := by simp
        admits := by simp [Machine.goto, Phase.admits, ThreadPc.blockedOn]
        consistent := by simp [Machine.goto, ThreadPc.Consistent, hlen, hpos]
        executing := .inl (by
          simpa [Machine.Executing, Machine.goto, Kernel.pinnedCore,
            Kernel.blockOn, Kernel.current] using hexec)
        blocked := by simp [Machine.goto, ThreadPc.suspended]
        running := by simp
        inbox_cores := by simp [Phase.inInbox]
        terminated := by
          simpa [Machine.goto, Kernel.blockOn, hterm] using ht.terminated
        idle_fiber := by simp [Machine.goto, hidle] }

/-! ### Steps of a thread on another -/

/-- The facts about the thread acted on: its block may change where its phase
does, its fiber stays, and it is neither dispatched nor taken off its core. -/
theorem ThreadOk.acted {φ φ' : Phase} (hx : ThreadOk cfg m φ x)
    (hpin : m'.kernel.pinnedCore x = m.kernel.pinnedCore x)
    (hprio : m'.kernel.priority x = m.kernel.priority x)
    (hflag : (m'.kernel.tcbs x).terminated = (m.kernel.tcbs x).terminated)
    (hfiber : m'.fiber x = m.fiber x) (hwaits : m'.waits = m.waits)
    (hexec : m'.Executing x ↔ m.Executing x)
    (hstate : m'.kernel.state x = φ'.state) (hborn : φ ≠ .unborn) (hborn' : φ' ≠ .unborn)
    (hdone : m'.kernel.done x = false → m.waits x = 0) (hwait : φ'.isWaiting = false)
    (hadm : φ'.admits (m.fiber x) = true) (hblk : φ'.state = .blocked → φ.state = .blocked)
    (hrun : φ' ≠ .running) (hdead : φ ≠ .dead) (hdead' : φ' ≠ .dead)
    (hin : φ'.inInbox = true → 1 < cfg.cores) : ThreadOk cfg m' φ' x where
  state := hstate
  core_lt _ := hpin ▸ hx.core_lt hborn
  priority_lt := hprio ▸ hx.priority_lt
  waiting_done hw := by simp [hwait] at hw
  done_waiting hd := .inr (by rw [hwaits]; exact hdone hd)
  waits_pos hb := by rw [hwaits]; exact hx.waits_pos (hblk hb)
  waits_unborn hu := absurd hu hborn'
  admits := by rw [hfiber]; exact hadm
  consistent := by rw [hfiber, hwaits]; exact hx.consistent
  executing := by rw [hfiber, hexec]; exact hx.executing
  blocked := by rw [hfiber, hexec]; exact fun he hb => hx.blocked he (hblk hb)
  running hr := absurd hr hrun
  inbox_cores := hin
  terminated := by
    rw [hflag, hx.terminated]
    simp [hdead, hdead']
  idle_fiber := by rw [hfiber]; exact hx.idle_fiber

/-- A thread other than the acting one stays on or off its core. -/
theorem Sim.executing_other (hcur : m.kernel.current c = some t) (hx : x ≠ t)
    (hpin : m'.kernel.pinnedCore x = m.kernel.pinnedCore x)
    (hcurrent : ∀ d, m'.kernel.current d = m.kernel.current d)
    (hcore' : m'.core = m.core ∨ m'.core = Function.update m.core c .pump) :
    m'.Executing x ↔ m.Executing x := by
  simp only [Machine.Executing, hpin, hcurrent]
  refine and_congr_left fun hu => ?_
  rcases hcore' with hc | hc
  · rw [hc]
  · have hne : m.kernel.pinnedCore x ≠ c := by
      intro he
      rw [he, hcur] at hu
      exact hx (Option.some.inj hu).symm
    rw [hc, Function.update_of_ne hne]

/-- `try_win` on the group of a waiting thread. -/
theorem Sim.win (h : Sim cfg m a) (hcore : m.core c = .thread)
    (hcur : m.kernel.current c = some t) {s : SignalCall} {n : NodeRef} {wait i j : Nat}
    {b : Bool} {ws : List WaitableRef} (hpc : m.fiber t = .tryWin s n wait x x i)
    (hx : a.phase x = .waiting ws) :
    Sim cfg (m.goto (m.kernel.win x j b) t (.teardown s x x)) (a.setPhase x (.won t ws)) := by
  have hact := h.acting_phase hcore hcur
  have hne : x ≠ t := by
    rintro rfl
    simp [hx, hpc, Phase.state] at hact
  have hadm : (a.phase t).admits (.teardown s x x) = true :=
    h.admits_move hcore hcur (by simp [hpc]) (by simp) (by simp [hpc, ThreadPc.exiting])
  have htcb : ∀ u, u ≠ x → (m.kernel.win x j b).tcbs u = m.kernel.tcbs u := fun u hu => by
    simp [Kernel.win, Kernel.modifyTcb, hu]
  have hphase : ∀ u, u ≠ x → (a.setPhase x (.won t ws)).phase u = a.phase u := fun u hu =>
    Function.update_of_ne hu _ _
  have hpin : (m.kernel.win x j b).pinnedCore x = m.kernel.pinnedCore x := by
    simp [Kernel.pinnedCore, Kernel.win, Kernel.modifyTcb]
  have hself : (a.setPhase x (.won t ws)).phase x = .won t ws := Function.update_self _ _ _
  have hxok := h.thread x
  rw [hx] at hxok
  refine ThreadStep.sim h hcore hcur (x := x)
    { core := .inl rfl
      fiber := fun u hu => Function.update_of_ne hu _ _
      waits := fun _ _ => rfl
      waits_le := Nat.le_refl _
      tcb := htcb
      pinned := .inl hpin
      phase := hphase
      currentThread := fun _ => rfl
      idleThread := fun _ => rfl
      ready := h.ready.congr rfl fun _ => rfl
      queued := h.queued_frame htcb hphase (by simp [hx]) (by simp [hself])
      waiting := h.waiting_frame rfl (fun u => ?_) hphase (by simp [hself, hx, Phase.held])
      acting := ?_
      acted := ?_
      born := h.born_frame rfl hphase (by simp [hself, hx])
      idle := fun hi => ?_
      onCore := fun d _ => by simp [hself, Phase.onCore]
      inbox := h.inbox_frame (fun _ => rfl) htcb hphase (by simp [hx, Phase.inInbox])
        (by simp [hself, Phase.inInbox])
      claims := ?_ }
  · by_cases hu : u = x
    · subst hu
      simp [Machine.goto, Kernel.win, Kernel.modifyTcb]
    · simp only [Machine.goto, htcb u hu]
  · rw [hphase t hne.symm]
    exact h.acting hcore hcur (htcb t hne.symm) (Function.update_self _ _ _) hcur rfl
      (.inl ⟨rfl, fun _ => rfl⟩) hadm rfl (by simp [hpc]) (by simp [hpc])
  · rw [hself]
    refine hxok.acted hpin ?_ ?_ (Function.update_of_ne hne _ _) rfl
      (Sim.executing_other hcur hne hpin (fun _ => rfl) (.inl rfl)) ?_ (by simp) (by simp) ?_ rfl
      hxok.admits (fun _ => rfl) (by simp) (by simp) (by simp) (by simp [Phase.inInbox])
    · simp [Machine.goto, Kernel.priority, Kernel.win, Kernel.modifyTcb]
    · simp [Machine.goto, Kernel.win, Kernel.modifyTcb]
    · simpa [Machine.goto, Kernel.state, Kernel.win, Kernel.modifyTcb, Phase.state] using
        hxok.state
    · simp [Machine.goto, Kernel.done, Kernel.win, Kernel.modifyTcb]
  · exact absurd hi (by simp [h.not_idle (x := x) (by simp [hx]) (by simp [hx]) (by simp [hx])])
  · refine h.claims.update ?_ ?_ ?_ ?_ <;> simp [hpc, hx, ThreadPc.claim, Phase.claim]

/-- `teardown_wait_group` on a thread whose group `t` has won. -/
theorem Sim.tearDown (h : Sim cfg m a) (hcore : m.core c = .thread)
    (hcur : m.kernel.current c = some t) {s : SignalCall} {ws : List WaitableRef}
    (hpc : m.fiber t = .teardown s x x) (hx : a.phase x = .won t ws) :
    ∃ links, m.kernel.teardownWaitGroup cfg x x =
        .ok (m.kernel.setPool x (poolFor cfg.maxWaitNodes x []) links) ∧
      Sim cfg (m.goto (m.kernel.setPool x (poolFor cfg.maxWaitNodes x []) links) t (.setReady s x))
        (a.tearDown t x) := by
  obtain ⟨links, htear, hrep⟩ := h.waiting.teardownWaitGroup x
  refine ⟨links, htear, ?_⟩
  have hact := h.acting_phase hcore hcur
  have hne : x ≠ t := by
    rintro rfl
    simp [hx, hpc, Phase.state] at hact
  have hadm : (a.phase t).admits (.setReady s x) = true :=
    h.admits_move hcore hcur (by simp [hpc]) (by simp) (by simp [hpc, ThreadPc.exiting])
  have htcb : ∀ u, u ≠ x → (m.kernel.setPool x (poolFor cfg.maxWaitNodes x []) links).tcbs u =
      m.kernel.tcbs u := fun u hu => by simp [Kernel.setPool, hu]
  have hphase : ∀ u, u ≠ x → (a.tearDown t x).phase u = a.phase u := fun u hu =>
    Function.update_of_ne hu _ _
  have hpin : (m.kernel.setPool x (poolFor cfg.maxWaitNodes x []) links).pinnedCore x =
      m.kernel.pinnedCore x := by simp [Kernel.pinnedCore, Kernel.setPool]
  have hself : (a.tearDown t x).phase x = .torn t := Function.update_self _ _ _
  have hxok := h.thread x
  rw [hx] at hxok
  refine ThreadStep.sim h hcore hcur (x := x)
    { core := .inl rfl
      fiber := fun u hu => Function.update_of_ne hu _ _
      waits := fun _ _ => rfl
      waits_le := Nat.le_refl _
      tcb := htcb
      pinned := .inl hpin
      phase := hphase
      currentThread := fun _ => rfl
      idleThread := fun _ => rfl
      ready := h.ready.congr rfl fun _ => rfl
      queued := h.queued_frame htcb hphase (by simp [hx]) (by simp [hself])
      waiting := ?_
      acting := ?_
      acted := ?_
      born := h.born_frame rfl hphase (by simp [hself, hx])
      idle := fun hi => ?_
      onCore := fun d _ => by simp [hself, Phase.onCore]
      inbox := h.inbox_frame (fun _ => rfl) htcb hphase (by simp [hx, Phase.inInbox])
        (by simp [hself, Phase.inInbox])
      claims := ?_ }
  · have hheld : (fun u => ((a.tearDown t x).phase u).held) =
        Function.update (fun u => (a.phase u).held) x [] := by
      funext u
      by_cases hu : u = x
      · subst hu
        simp [hself, Phase.held]
      · rw [hphase u hu, Function.update_of_ne hu]
    rw [hheld]
    exact hrep
  · rw [hphase t hne.symm]
    exact h.acting hcore hcur (htcb t hne.symm) (Function.update_self _ _ _) hcur rfl
      (.inl ⟨rfl, fun _ => rfl⟩) hadm trivial (by simp [hpc]) (by simp [hpc])
  · rw [hself]
    refine hxok.acted hpin ?_ ?_ (Function.update_of_ne hne _ _) rfl
      (Sim.executing_other hcur hne hpin (fun _ => rfl) (.inl rfl)) ?_ (by simp) (by simp) ?_ rfl
      ?_ (fun _ => rfl) (by simp) (by simp) (by simp) (by simp [Phase.inInbox])
    · simp [Machine.goto, Kernel.priority, Kernel.setPool]
    · simp [Machine.goto, Kernel.setPool]
    · simpa [Machine.goto, Kernel.state, Kernel.setPool, Phase.state] using hxok.state
    · simpa [Machine.goto, Kernel.done, Kernel.setPool, Phase.isWaiting] using hxok.done_waiting
    · have := hxok.admits
      cases hf : m.fiber x <;> simp_all [Phase.admits, ThreadPc.blockedOn]
  · exact absurd hi (by simp [h.not_idle (x := x) (by simp [hx]) (by simp [hx]) (by simp [hx])])
  · refine h.claims.update ?_ ?_ ?_ ?_ <;> simp [hpc, hx, ThreadPc.claim, Phase.claim]

/-! ### Readying -/

/-- The thread that the acting thread is about to make ready is new or torn
down, and no one else's business. -/
theorem Sim.claimed (h : Sim cfg m a) (hcore : m.core c = .thread)
    (hcur : m.kernel.current c = some t) {κ : Claim} (hclaim : (m.fiber t).claim = some (x, κ))
    (hκ : κ ≠ .tearDown) :
    x ≠ t ∧ x.isIdle = false ∧
      ((a.phase x = .pinned t ∧ (m.fiber x = .user ∨ m.fiber x = .idle)) ∨
        (a.phase x = .torn t ∧
          ∃ ws p, m.fiber x = .commence ws p ∨ m.fiber x = .waitReturn ws p)) := by
  have hp := (h.claims x t κ).mp hclaim
  have hphase : a.phase x = .pinned t ∨ a.phase x = .torn t := by
    cases hx : a.phase x <;> simp_all [Phase.claim]
  have hadm := (h.thread x).admits
  refine ⟨?_, ?_, ?_⟩
  · rintro rfl
    have hact := h.acting_phase hcore hcur
    rcases hphase with hx | hx
    · simp [hx, Phase.state] at hact
    · rcases hact with ⟨hr, -⟩ | ⟨-, ws, p, hf⟩ | ⟨hr, -⟩
      · simp [hx] at hr
      · simp [hf, ThreadPc.claim] at hclaim
      · simp [hx] at hr
  · rcases hphase with hx | hx <;>
      exact h.not_idle (by simp [hx]) (by simp [hx]) (by simp [hx])
  · rcases hphase with hx | hx
    · rw [hx] at hadm
      exact .inl ⟨hx, by simpa [Phase.admits] using hadm⟩
    · rw [hx] at hadm
      refine .inr ⟨hx, ?_⟩
      cases hf : m.fiber x <;> simp_all [Phase.admits]

/-- A thread that is not in the ready phase is on no queue. -/
theorem Sim.not_queued (h : Sim cfg m a) (hx : a.phase x ≠ .ready) :
    ∀ i, x ∉ a.queue i := by
  rintro ⟨d, p⟩ hmem
  exact hx ((h.queued d p x).mp hmem).1

/-- Where only the state of one thread has been written, every control block is
as before but for its state. -/
theorem Kernel.tcb_of_state {k k' : Kernel} {st : ThreadState}
    (h : k'.tcbs = Function.update k.tcbs x { k.tcbs x with state := st }) (u : ThreadRef) :
    ∃ st', k'.tcbs u = { k.tcbs u with state := st' } := by
  rw [h]
  by_cases hu : u = x
  · exact ⟨st, by rw [hu, Function.update_self]⟩
  · exact ⟨(k.tcbs u).state, by rw [Function.update_of_ne hu]⟩

theorem Kernel.pinnedCore_of_state {k k' : Kernel} {st : ThreadState}
    (h : k'.tcbs = Function.update k.tcbs x { k.tcbs x with state := st }) (u : ThreadRef) :
    k'.pinnedCore u = k.pinnedCore u := by
  obtain ⟨st', hu⟩ := Kernel.tcb_of_state h u
  rw [Kernel.pinnedCore, hu]
  rfl

theorem Kernel.priority_of_state {k k' : Kernel} {st : ThreadState}
    (h : k'.tcbs = Function.update k.tcbs x { k.tcbs x with state := st }) (u : ThreadRef) :
    k'.priority u = k.priority u := by
  obtain ⟨st', hu⟩ := Kernel.tcb_of_state h u
  rw [Kernel.priority, hu]
  rfl

theorem Kernel.makeReady_tcbs (k : Kernel) (c : Nat) (x : ThreadRef) :
    (k.makeReady c x).tcbs = Function.update k.tcbs x { k.tcbs x with state := .ready } := rfl

theorem Kernel.makeReady_schedulers (k : Kernel) (c d : Nat) (x : ThreadRef) :
    ∃ bits, (k.makeReady c x).schedulers d = { k.schedulers d with bitmap := bits } := by
  by_cases hd : d = c
  · subst hd
    exact ⟨_, by simp only [Kernel.makeReady, Kernel.linkReady, Function.update_self]; rfl⟩
  · refine ⟨(k.schedulers d).bitmap, ?_⟩
    simp [Kernel.makeReady, Kernel.linkReady, hd, Kernel.setState, Kernel.modifyTcb]

/-- The ready queues after a thread has been made ready. -/
theorem ReadyRep.makeReady {k : Kernel} {q : Nat × Nat → List ThreadRef} {f : ThreadRef → Phase}
    (hrep : ReadyRep k q)
    (hq : ∀ d p u, u ∈ q (d, p) ↔ f u = .ready ∧ u.isIdle = false ∧ k.pinnedCore u = d ∧
      k.priority u = p)
    (hx : f x ≠ .ready) (hidle : x.isIdle = false) (hpin : k.pinnedCore x = c)
    (hlt : k.priority x < 32) :
    ReadyRep (k.makeReady c x)
        (Function.update q (c, k.priority x) (q (c, k.priority x) ++ [x])) ∧
      ∀ d p u, u ∈ Function.update q (c, k.priority x) (q (c, k.priority x) ++ [x]) (d, p) ↔
        Function.update f x .ready u = .ready ∧ u.isIdle = false ∧
          (k.makeReady c x).pinnedCore u = d ∧ (k.makeReady c x).priority u = p := by
  have hnot : ∀ i, x ∉ q i := by
    rintro ⟨d, p⟩ hmem
    exact hx ((hq d p x).mp hmem).1
  have hset : (k.setState x .ready).priority x = k.priority x := by
    simp [Kernel.priority, Kernel.setState, Kernel.modifyTcb]
  constructor
  · have hrep' : ReadyRep (k.setState x .ready) q := hrep.congr rfl fun _ => rfl
    have := hrep'.linkReady (c := c) hnot (hset ▸ hlt)
    rw [hset] at this
    exact this
  · intro d p u
    rw [Kernel.pinnedCore_of_state (k.makeReady_tcbs c x),
      Kernel.priority_of_state (k.makeReady_tcbs c x)]
    by_cases hdp : (d, p) = (c, k.priority x)
    · obtain ⟨rfl, rfl⟩ := Prod.mk.inj hdp
      rw [Function.update_self, List.mem_append, List.mem_singleton, hq]
      by_cases hu : u = x
      · subst hu
        simp [hidle, hpin]
      · simp [hu]
    · rw [Function.update_of_ne hdp, hq]
      by_cases hu : u = x
      · subst hu
        have hne : ¬ (k.pinnedCore u = d ∧ k.priority u = p) := by
          rintro ⟨rfl, rfl⟩
          exact hdp (by rw [hpin])
        simp [hx, hne]
      · rw [Function.update_of_ne hu]

/-- The acting thread lets go of the thread it was about to make ready, which
is now in the ready matrix or in an inbox. -/
theorem Sim.handOver (h : Sim cfg m a) (hcore : m.core c = .thread)
    (hcur : m.kernel.current c = some t) {κ : Claim} {pc : ThreadPc} {φ : Phase}
    {q : Nat × Nat → List ThreadRef} (hclaim : (m.fiber t).claim = some (x, κ))
    (hκ : κ ≠ .tearDown)
    (htcbs : m'.kernel.tcbs = Function.update m.kernel.tcbs x
      { m.kernel.tcbs x with state := φ.state })
    (hcurrent : ∀ d, m'.kernel.current d = m.kernel.current d)
    (hidleThread : ∀ d, (m'.kernel.schedulers d).idleThread = (m.kernel.schedulers d).idleThread)
    (hwaiters : m'.kernel.waiters = m.kernel.waiters)
    (hthreads : m'.kernel.threads = m.kernel.threads)
    (hfiber : m'.fiber = Function.update m.fiber t pc) (hwaits : m'.waits = m.waits)
    (hdep : Departs m m' c (a.phase t) pc) (hpc : pc.claim = none)
    (hadm : (a.phase t).admits pc = true) (hcons : pc.Consistent cfg m.waits)
    (hidle : pc ≠ .idle) (hterm : pc ≠ .terminate)
    (hφ : φ = .ready ∨ φ.inInbox = true) (hnew : φ.admits (m.fiber x) = true)
    (hblk : φ.state = .blocked → (a.phase x).state = .blocked)
    (hin : φ.inInbox = true → 1 < cfg.cores)
    (hready : ReadyRep m'.kernel q)
    (hqueued : ∀ d p u, u ∈ q (d, p) ↔ Function.update a.phase x φ u = .ready ∧
      u.isIdle = false ∧ m'.kernel.pinnedCore u = d ∧ m'.kernel.priority u = p)
    (hon : ∀ d, m.kernel.current d = some x → φ.onCore (m'.core d) = true)
    (hinbox : ∀ d, (m'.kernel.schedulers d).inbox.Nodup ∧
      ∀ u, u ∈ (m'.kernel.schedulers d).inbox ↔
        (Function.update a.phase x φ u).inInbox = true ∧ m'.kernel.pinnedCore u = d) :
    Sim cfg m' { a with phase := Function.update a.phase x φ, queue := q } := by
  obtain ⟨hne, hxidle, hcase⟩ := h.claimed hcore hcur hclaim hκ
  have hclaimed := (h.claims x t κ).mp hclaim
  have hold : a.phase x ≠ .unborn ∧ a.phase x ≠ .dead ∧ (a.phase x).held = [] ∧
      (a.phase x).isWaiting = false := by
    rcases hcase with ⟨hx, -⟩ | ⟨hx, -⟩ <;> simp [hx, Phase.held, Phase.isWaiting]
  have hφ' : φ ≠ .unborn ∧ φ ≠ .dead ∧ φ ≠ .running ∧ φ.held = [] ∧ φ.isWaiting = false ∧
      φ.claim = none := by
    cases φ <;> simp_all [Phase.inInbox, Phase.held, Phase.isWaiting, Phase.claim]
  have htcb : ∀ u, u ≠ x → m'.kernel.tcbs u = m.kernel.tcbs u := fun u hu => by
    rw [htcbs, Function.update_of_ne hu]
  let a' : Life := { a with phase := Function.update a.phase x φ, queue := q }
  have hphase : ∀ u, u ≠ x → a'.phase u = a.phase u :=
    fun u hu => Function.update_of_ne hu _ _
  have hself : a'.phase x = φ := Function.update_self _ _ _
  have hpin' := Kernel.pinnedCore_of_state htcbs x
  change Sim cfg m' a'
  refine ThreadStep.sim h hcore hcur (x := x)
    { core := hdep.core
      fiber := fun u hu => by rw [hfiber, Function.update_of_ne hu]
      waits := fun _ _ => by rw [hwaits]
      waits_le := by rw [hwaits]
      tcb := htcb
      pinned := .inl hpin'
      phase := hphase
      currentThread := hcurrent
      idleThread := hidleThread
      ready := hready
      queued := hqueued
      waiting := h.waiting_frame hwaiters (fun u => ?_) hphase
        (by rw [hself, hφ'.2.2.2.1, hold.2.2.1])
      acting := ?_
      acted := ?_
      born := h.born_frame hthreads hphase (by simp [hself, hφ'.1, hold.1])
      idle := fun hi => absurd hi (by simp [hxidle])
      onCore := fun d hd => by rw [hself]; exact hon d hd
      inbox := hinbox
      claims := ?_ }
  · obtain ⟨st, hu⟩ := Kernel.tcb_of_state htcbs u
    rw [hu]
  · rw [hphase t hne.symm]
    have hnot : m.fiber t ≠ .idle ∧ m.fiber t ≠ .terminate := by
      constructor <;> intro hf <;> simp [hf, ThreadPc.claim] at hclaim
    exact h.acting hcore hcur (htcb t hne.symm) (by rw [hfiber, Function.update_self])
      (by rw [hcurrent, hcur]) (by rw [hwaits]) hdep hadm (hwaits ▸ hcons)
      (iff_of_false hidle hnot.1) (iff_of_false hterm hnot.2)
  · rw [hself]
    have hxok := h.thread x
    refine hxok.acted hpin' (Kernel.priority_of_state htcbs x) (by simp [htcbs])
      (by rw [hfiber, Function.update_of_ne hne]) hwaits
      (Sim.executing_other hcur hne hpin' hcurrent hdep.core)
      (by simp [Kernel.state, htcbs]) hold.1 hφ'.1 (fun hd => ?_) hφ'.2.2.2.2.1 hnew
      hblk hφ'.2.2.1 hold.2.1 hφ'.2.1 hin
    have hd' : m.kernel.done x = false := by simpa [Kernel.done, htcbs] using hd
    exact (hxok.done_waiting hd').resolve_left (by simp [hold.2.2.2])
  · rw [hfiber]
    refine h.claims.update ?_ ?_ ?_ ?_ <;> simp [hclaim, hclaimed, hpc, hφ'.2.2.2.2.2]

/-- The acting thread readies a thread of its own core. -/
theorem Sim.makeReady (h : Sim cfg m a) (hcore : m.core c = .thread)
    (hcur : m.kernel.current c = some t) {κ : Claim} {pc : ThreadPc}
    (hclaim : (m.fiber t).claim = some (x, κ)) (hκ : κ ≠ .tearDown)
    (hpin : m.kernel.pinnedCore x = c) (hk : m'.kernel = m.kernel.makeReady c x)
    (hfiber : m'.fiber = Function.update m.fiber t pc) (hwaits : m'.waits = m.waits)
    (hdep : Departs m m' c (a.phase t) pc) (hpc : pc.claim = none)
    (hadm : (a.phase t).admits pc = true) (hcons : pc.Consistent cfg m.waits)
    (hidle : pc ≠ .idle) (hterm : pc ≠ .terminate) :
    Sim cfg m' (a.enqueue c (m.kernel.priority x) x) := by
  obtain ⟨hne, hxidle, hcase⟩ := h.claimed hcore hcur hclaim hκ
  have hold : a.phase x ≠ .ready ∧ (a.phase x).inInbox = false := by
    rcases hcase with ⟨hx, -⟩ | ⟨hx, -⟩ <;> simp [hx, Phase.inInbox]
  obtain ⟨hready, hqueued⟩ := h.ready.makeReady h.queued hold.1 hxidle hpin
    (Nat.lt_of_lt_of_le (h.thread x).priority_lt cfg.priorities_le)
  -- `x` is pinned here and `t` is current, so `x` is off its core
  have hoff : ∀ d, m.kernel.current d ≠ some x := by
    intro d hd
    have hdc : d = c := by rw [← hpin, (h.current d x hd).1]
    rw [hdc, hcur] at hd
    exact hne (Option.some.inj hd).symm
  have hsus : (m.fiber x).suspended = true :=
    ((h.thread x).executing).resolve_left fun he => hoff _ he.2
  have hsched := fun d => m.kernel.makeReady_schedulers c d x
  have hphase : ∀ u, u ≠ x → (a.setPhase x .ready).phase u = a.phase u := fun u hu =>
    Function.update_of_ne hu _ _
  refine h.handOver hcore hcur hclaim hκ (by rw [hk]; rfl) (fun d => ?_) (fun d => ?_)
    (by rw [hk]; rfl) (by rw [hk]; rfl) hfiber hwaits hdep hpc hadm hcons hidle hterm (.inl rfl) ?_
    (by simp [Phase.state]) (by simp [Phase.inInbox]) (hk ▸ hready) (hk ▸ hqueued)
    (fun d hd => absurd hd (hoff d))
    (h.inbox_frame (fun d => ?_) (fun u hu => ?_) hphase hold.2
      (by simp [Phase.inInbox]))
  · obtain ⟨bits, hb⟩ := hsched d
    rw [hk, Kernel.current, hb]
    rfl
  · obtain ⟨bits, hb⟩ := hsched d
    rw [hk, hb]
  · rcases hcase with ⟨-, hf | hf⟩ | ⟨-, ws, p, hf | hf⟩ <;>
      simp_all [Phase.admits, ThreadPc.suspended, ThreadPc.exiting]
  · obtain ⟨bits, hb⟩ := hsched d
    rw [hk, hb]
  · rw [hk, Kernel.makeReady_tcbs, Function.update_of_ne hu]

/-- The phase of a thread that has been posted to the inbox of its core. -/
def Phase.afterPost : Phase → Phase
  | .torn _ => .posted
  | _ => .postedNew

/-- The acting thread posts a thread of another core. -/
theorem Sim.post (h : Sim cfg m a) (hcore : m.core c = .thread)
    (hcur : m.kernel.current c = some t) {κ : Claim} {pc : ThreadPc}
    (hclaim : (m.fiber t).claim = some (x, κ)) (hκ : κ ≠ .tearDown)
    (hpin : m.kernel.pinnedCore x ≠ c)
    (hk : m'.kernel = m.kernel.post (m.kernel.pinnedCore x) x)
    (hfiber : m'.fiber = Function.update m.fiber t pc) (hwaits : m'.waits = m.waits)
    (hdep : Departs m m' c (a.phase t) pc) (hpc : pc.claim = none)
    (hadm : (a.phase t).admits pc = true) (hcons : pc.Consistent cfg m.waits)
    (hidle : pc ≠ .idle) (hterm : pc ≠ .terminate) :
    Sim cfg m' (a.setPhase x (a.phase x).afterPost) := by
  obtain ⟨hne, hxidle, hcase⟩ := h.claimed hcore hcur hclaim hκ
  have hxok := h.thread x
  have hpint : m.kernel.pinnedCore t < cfg.cores := (h.thread t).core_lt fun hu => by
    have := (h.current c t hcur).2
    rw [hu, hcore] at this
    simp [Phase.onCore] at this
  have hpinx : m.kernel.pinnedCore x < cfg.cores := hxok.core_lt (by
    rcases hcase with ⟨hx, -⟩ | ⟨hx, -⟩ <;> simp [hx])
  have hcores : 1 < cfg.cores := by
    rw [(h.current c t hcur).1] at hpint
    omega
  have hold : a.phase x ≠ .ready ∧ (a.phase x).inInbox = false ∧
      (a.phase x).afterPost ≠ .ready ∧ (a.phase x).afterPost.inInbox = true ∧
      (a.phase x).afterPost.state = (a.phase x).state := by
    rcases hcase with ⟨hx, -⟩ | ⟨hx, -⟩ <;> simp [hx, Phase.inInbox, Phase.afterPost, Phase.state]
  obtain ⟨hnready, hxin, hnready', hxin', hstate⟩ := hold
  have htcbs : m'.kernel.tcbs = Function.update m.kernel.tcbs x
      { m.kernel.tcbs x with state := (a.phase x).afterPost.state } := by
    rw [hstate, ← hxok.state, hk]
    exact (Function.update_eq_self x _).symm
  have hsame : ∀ u, m'.kernel.tcbs u = m.kernel.tcbs u := fun u => by rw [hk]; rfl
  have hsched : ∀ d, m'.kernel.schedulers d = { m.kernel.schedulers d with
      inbox := (m'.kernel.schedulers d).inbox } := fun d => by
    rw [hk, Kernel.post, Kernel.modifySched]
    by_cases hd : d = m.kernel.pinnedCore x
    · subst hd
      simp
    · simp [hd]
  have hphase : ∀ u, u ≠ x → (a.setPhase x (a.phase x).afterPost).phase u = a.phase u :=
    fun u hu => Function.update_of_ne hu _ _
  refine h.handOver hcore hcur hclaim hκ htcbs (fun d => ?_) (fun d => by rw [hsched])
    (by rw [hk]; rfl) (by rw [hk]; rfl) hfiber hwaits hdep hpc hadm hcons hidle hterm (.inr hxin')
    ?_ (by rw [hstate]; exact id) (fun _ => hcores)
    (h.ready.congr (by rw [hk]; rfl) fun d => by rw [hsched])
    (h.queued_frame (fun u _ => hsame u) hphase hnready
      (by simpa [Life.setPhase] using hnready'))
    (fun d hd => ?_) (fun d => ?_)
  · rw [Kernel.current, hsched]
    rfl
  · rcases hcase with ⟨hx, hf | hf⟩ | ⟨hx, ws, p, hf | hf⟩ <;>
      simp [hx, hf, Phase.afterPost, Phase.admits]
  · -- a torn-down thread may still be current on its own core
    have hon := (h.current d x hd).2
    rcases hcase with ⟨hx, -⟩ | ⟨hx, -⟩
    · rw [hx] at hon
      cases hm : m.core d <;> simp [Phase.onCore] at hon
    · rw [hx]
      cases m'.core d <;> rfl
  · obtain ⟨hnd, hmem⟩ := h.inbox d
    have hnot : x ∉ (m.kernel.schedulers d).inbox := by simp [hmem, hxin]
    by_cases hd : d = m.kernel.pinnedCore x
    · have heq : (m'.kernel.schedulers d).inbox = (m.kernel.schedulers d).inbox ++ [x] := by
        simp [hk, Kernel.post, Kernel.modifySched, hd]
      refine ⟨?_, fun u => ?_⟩
      · rw [heq, List.nodup_append]
        refine ⟨hnd, by simp, ?_⟩
        rintro u hu v hv rfl
        rw [List.mem_singleton] at hv
        exact hnot (hv ▸ hu)
      · rw [heq, List.mem_append, List.mem_singleton, hmem]
        by_cases hu : u = x
        · subst hu
          simp [hxin', Kernel.pinnedCore, hsame, hd]
        · simp [hu, Kernel.pinnedCore, hsame]
    · have heq : (m'.kernel.schedulers d).inbox = (m.kernel.schedulers d).inbox := by
        simp [hk, Kernel.post, Kernel.modifySched, hd]
      rw [heq]
      refine ⟨hnd, fun u => ?_⟩
      rw [hmem]
      by_cases hu : u = x
      · subst hu
        simp [hxin, Kernel.pinnedCore, hsame]
        exact fun _ => Ne.symm hd
      · simp [hu, Kernel.pinnedCore, hsame]

/-! ### Construction -/

theorem Kernel.constructed_tcbs (k : Kernel) (cfg : Config) (priority : UInt8)
    (affinity : BitVec 32) (d : Nat) :
    (k.constructed cfg priority affinity d).tcbs = Function.update k.tcbs (.user k.threads)
      { Kernel.newTcb cfg (.user k.threads) k.threadIdGenerator priority.toNat affinity with
        pinnedCore := d } := by
  simp [Kernel.constructed, Scheduler.pinThread, Kernel.addThread, Kernel.modifyTcb,
    Kernel.modifySched]

theorem Kernel.constructed_schedulers (k : Kernel) (cfg : Config) (priority : UInt8)
    (affinity : BitVec 32) (d e : Nat) : ∃ n, (k.constructed cfg priority affinity d).schedulers e =
      { k.schedulers e with pinnedThreadCounter := n } := by
  by_cases he : e = d
  · subst he
    exact ⟨_, by
      simp only [Kernel.constructed, Scheduler.pinThread, Kernel.modifySched, Function.update_self]
      rfl⟩
  · refine ⟨(k.schedulers e).pinnedThreadCounter, ?_⟩
    simp [Kernel.constructed, Scheduler.pinThread, Kernel.addThread, Kernel.modifyTcb,
      Kernel.modifySched, he]

/-- A new control block has the pool of a thread that holds nothing, as it had
before. -/
theorem Sim.constructed_waiting (h : Sim cfg m a) (hx : a.phase (.user m.kernel.threads) = .unborn)
    (priority : UInt8) (affinity : BitVec 32) (d : Nat) (u : ThreadRef) :
    ((m.kernel.constructed cfg priority affinity d).tcbs u).waitNodes =
      (m.kernel.tcbs u).waitNodes := by
  rw [Kernel.constructed_tcbs]
  by_cases hu : u = .user m.kernel.threads
  · subst hu
    rw [Function.update_self, h.waiting.pools, hx]
    exact create_eq _ _
  · rw [Function.update_of_ne hu]

/-- The facts about a thread that has just been constructed and pinned. -/
theorem Sim.constructed_thread (h : Sim cfg m a) {priority : UInt8} {affinity : BitVec 32} {d : Nat}
    (hprio : priority.toNat < cfg.maxPriorities) (hd : d < cfg.cores) {φ : Phase}
    (hφ : (∃ u, φ = .pinned u) ∨ φ = .ready) (hx : x = .user m.kernel.threads)
    (hk : m'.kernel.tcbs x = { Kernel.newTcb cfg (.user m.kernel.threads) m.kernel.threadIdGenerator
      priority.toNat affinity with pinnedCore := d })
    (hfiber : m'.fiber x = m.fiber x) (hwaits : m'.waits x = m.waits x) :
    ThreadOk cfg m' φ x := by
  have hunborn : a.phase x = .unborn := by rw [hx]; exact (h.born _).mpr (Nat.le_refl _)
  have hxok := h.thread x
  rw [hunborn] at hxok
  have huser : m.fiber x = .user := by
    have hadm := hxok.admits
    have hidle := hxok.idle_fiber
    simp only [Phase.admits, Bool.or_eq_true, decide_eq_true_eq] at hadm
    refine hadm.resolve_right fun hi => ?_
    rw [hi, hx] at hidle
    simp [ThreadRef.isIdle] at hidle
  have hcases : φ.state = .ready ∧ φ.isWaiting = false ∧ φ ≠ .unborn ∧ φ ≠ .running ∧ φ ≠ .dead ∧
      φ.inInbox = false ∧ φ.admits .user = true := by
    rcases hφ with ⟨u, rfl⟩ | rfl <;>
      simp [Phase.state, Phase.isWaiting, Phase.inInbox, Phase.admits, ThreadPc.suspended,
        ThreadPc.exiting]
  obtain ⟨hstate, hwait, hborn, hrun, hdead, hin, hadm⟩ := hcases
  exact
    { state := by rw [Kernel.state, hk, hstate]; rfl
      core_lt := fun _ => by rw [Kernel.pinnedCore, hk]; exact hd
      priority_lt := by rw [Kernel.priority, hk]; exact hprio
      waiting_done := by simp [hwait]
      done_waiting := fun _ => .inr (by rw [hwaits]; exact hxok.waits_unborn rfl)
      waits_pos := by simp [hstate]
      waits_unborn := fun hu => absurd hu hborn
      admits := by rw [hfiber, huser]; exact hadm
      consistent := by rw [hfiber, huser]; trivial
      executing := .inr (by rw [hfiber, huser]; rfl)
      blocked := by simp [hstate]
      running := fun hr => absurd hr hrun
      inbox_cores := by simp [hin]
      terminated := by rw [hk]; simp [hdead, Kernel.newTcb]
      idle_fiber := by rw [hfiber]; exact hxok.idle_fiber }

/-- The running thread constructs another. -/
theorem Sim.construct (h : Sim cfg m a) (hcore : m.core c = .thread)
    (hcur : m.kernel.current c = some t) (hpc : m.fiber t = .user) {priority : UInt8}
    {affinity : BitVec 32} {d : Nat} (hprio : priority.toNat < cfg.maxPriorities)
    (hd : d < cfg.cores) :
    Sim cfg (m.goto (m.kernel.constructed cfg priority affinity d) t
        (.register (.user m.kernel.threads)))
      (a.setPhase (.user m.kernel.threads) (.pinned t)) := by
  have hunborn : a.phase (.user m.kernel.threads) = .unborn := (h.born _).mpr (Nat.le_refl _)
  have hon := (h.current c t hcur).2
  have hne : ThreadRef.user m.kernel.threads ≠ t := by
    rintro rfl
    rw [hunborn, hcore] at hon
    simp [Phase.onCore] at hon
  have hadm : (a.phase t).admits (.register (.user m.kernel.threads)) = true :=
    h.admits_move hcore hcur (by simp [hpc]) (by simp) (by simp [hpc, ThreadPc.exiting])
  have hsched := m.kernel.constructed_schedulers cfg priority affinity d
  have htcb : ∀ u, u ≠ .user m.kernel.threads →
      (m.kernel.constructed cfg priority affinity d).tcbs u = m.kernel.tcbs u := fun u hu => by
    rw [Kernel.constructed_tcbs, Function.update_of_ne hu]
  have hphase : ∀ u, u ≠ .user m.kernel.threads →
      (a.setPhase (.user m.kernel.threads) (.pinned t)).phase u = a.phase u := fun u hu =>
    Function.update_of_ne hu _ _
  have hself : (a.setPhase (.user m.kernel.threads) (.pinned t)).phase (.user m.kernel.threads) =
      .pinned t := Function.update_self _ _ _
  have hcurrent : ∀ e, (m.kernel.constructed cfg priority affinity d).current e =
      m.kernel.current e := fun e => by
    obtain ⟨n, hn⟩ := hsched e
    rw [Kernel.current, hn]
    rfl
  refine ThreadStep.sim h hcore hcur (x := .user m.kernel.threads)
    { core := .inl rfl
      fiber := fun u hu => Function.update_of_ne hu _ _
      waits := fun _ _ => rfl
      waits_le := Nat.le_refl _
      tcb := htcb
      pinned := .inr hunborn
      phase := hphase
      currentThread := hcurrent
      idleThread := fun e => ?_
      ready := h.ready.congr rfl fun e => ?_
      queued := h.queued_frame htcb hphase (by simp [hunborn]) (by simp [hself])
      waiting := h.waiting_frame rfl (h.constructed_waiting hunborn priority affinity d) hphase
        (by simp [hself, hunborn, Phase.held])
      acting := ?_
      acted := ?_
      born := fun n => ?_
      idle := fun hi => by simp [ThreadRef.isIdle] at hi
      onCore := fun e he => ?_
      inbox := h.inbox_frame (fun e => ?_) htcb hphase (by simp [hunborn, Phase.inInbox])
        (by simp [hself, Phase.inInbox])
      claims := ?_ }
  · obtain ⟨n, hn⟩ := hsched e
    simp only [Machine.goto, hn]
  · obtain ⟨n, hn⟩ := hsched e
    simp only [Machine.goto, hn]
  · rw [hphase t hne.symm]
    exact h.acting hcore hcur (htcb t hne.symm) (Function.update_self _ _ _)
      ((hcurrent c).trans hcur) rfl (.inl ⟨rfl, fun _ => rfl⟩) hadm trivial (by simp [hpc])
      (by simp [hpc])
  · rw [hself]
    exact h.constructed_thread hprio hd (.inl ⟨t, rfl⟩) rfl
      ((congrFun (m.kernel.constructed_tcbs cfg priority affinity d) _).trans
        (Function.update_self _ _ _))
      (Function.update_of_ne hne _ _) rfl
  · by_cases hn : n = m.kernel.threads
    · subst hn
      rw [hself]
      simp [Machine.goto, Kernel.constructed, Scheduler.pinThread, Kernel.addThread,
        Kernel.modifyTcb, Kernel.modifySched]
    · rw [hphase _ (by simpa using hn), h.born]
      simp only [Machine.goto, Kernel.constructed, Scheduler.pinThread, Kernel.addThread,
        Kernel.modifyTcb, Kernel.modifySched]
      omega
  · have := (h.current e _ he).2
    rw [hunborn] at this
    cases hm : m.core e <;> simp [Phase.onCore] at this
  · obtain ⟨n, hn⟩ := hsched e
    simp only [Machine.goto, hn]
  · refine h.claims.update ?_ ?_ ?_ ?_ <;> simp [hpc, hunborn, ThreadPc.claim, Phase.claim]

end Cortos
