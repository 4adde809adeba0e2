import Cortos.Machine.ThreadSteps

/-!
# Steps of a scheduler keep the simulation relation

A step of a scheduler fiber touches its core and at most one thread `x`, which
is pinned there. As for threads, `CoreStep` lists what has to be checked and
`CoreStep.sim` supplies the rest. `reschedule` is seen here as up to three
changes: a request is drained (`Sim.drainOne`), the outgoing thread goes back to
the ready matrix (`Sim.rotate`), the next thread is dispatched (`Sim.select`).
-/

namespace Cortos

open Lib WaitNodePool

variable {cfg : Config} {m m' : Machine} {a a' : Life} {c : Nat} {t x : ThreadRef}

/-- What is to be checked of a step in which core `c` acts on its thread `x`. -/
structure CoreStep (cfg : Config) (m : Machine) (a : Life) (c : Nat) (x : ThreadRef)
    (m' : Machine) (a' : Life) : Prop where
  core : ∀ d, d ≠ c → m'.core d = m.core d
  fiber : m'.fiber = m.fiber
  waits : m'.waits = m.waits
  tcb : ∀ u, u ≠ x → m'.kernel.tcbs u = m.kernel.tcbs u
  phase : ∀ u, u ≠ x → a'.phase u = a.phase u
  currentThread : ∀ d, d ≠ c → m'.kernel.current d = m.kernel.current d
  executing : ∀ u, u ≠ x → (m.Executing u ↔ m'.Executing u)
  running : ∀ u, u ≠ x → a.phase u = .running → m.kernel.pinnedCore u = c →
    m'.kernel.current c = some u
  idleThread : ∀ d, (m'.kernel.schedulers d).idleThread = (m.kernel.schedulers d).idleThread
  pinned : a.phase x = .unborn ∨ m.kernel.pinnedCore x = c
  pinned' : m'.kernel.pinnedCore x = c
  ready : ReadyRep m'.kernel a'.queue
  queued : ∀ d p u, u ∈ a'.queue (d, p) ↔ a'.phase u = .ready ∧ u.isIdle = false ∧
    m'.kernel.pinnedCore u = d ∧ m'.kernel.priority u = p
  waiting : WaitRep cfg m'.kernel (fun u => (a'.phase u).held) a'.waiters
  acted : ThreadOk cfg m' (a'.phase x) x
  born : ∀ n, a'.phase (.user n) = .unborn ↔ m'.kernel.threads ≤ n
  idle : x.isIdle = true →
    a.phase x ≠ .unborn ∧ (a'.phase x = .ready ∨ a'.phase x = .running)
  boot : m'.core c = .boot ↔ m'.kernel.current c = none
  current : ∀ u, m'.kernel.current c = some u →
    m'.kernel.pinnedCore u = c ∧ (a'.phase u).onCore (m'.core c) = true
  inbox : ∀ d, (m'.kernel.schedulers d).inbox.Nodup ∧
    ∀ u, u ∈ (m'.kernel.schedulers d).inbox ↔
      (a'.phase u).inInbox = true ∧ m'.kernel.pinnedCore u = d
  claims : Claims m'.fiber a'.phase

theorem Phase.not_onCore_unborn (pc : CorePc) : Phase.onCore pc .unborn = false := by
  cases pc <;> rfl

theorem CoreStep.sim (h : Sim cfg m a) (hs : CoreStep cfg m a c x m' a') : Sim cfg m' a' where
  ready := hs.ready
  queued := hs.queued
  waiting := hs.waiting
  born := hs.born
  inbox := hs.inbox
  claims := hs.claims
  boot d := by
    by_cases hd : d = c
    · exact hd ▸ hs.boot
    · rw [hs.core d hd, hs.currentThread d hd]
      exact h.boot d
  idle d := by
    obtain ⟨hi, hpin, hph⟩ := h.idle d
    rw [hs.idleThread]
    by_cases hx : .idle d = x
    · obtain ⟨hb, hnew⟩ := hs.idle (by rw [← hx]; rfl)
      rw [← hx] at hb
      have hdc : d = c := hpin.symm.trans (hx ▸ hs.pinned.resolve_left (hx ▸ hb))
      refine ⟨hi, by rw [hx, hs.pinned', hdc], .inr ⟨hx ▸ hnew, ?_⟩⟩
      exact (hph.resolve_left fun hu => hb hu.1).2
    · rw [hs.phase _ hx]
      refine ⟨hi, ?_, hph⟩
      rw [Kernel.pinnedCore, hs.tcb _ hx]
      exact hpin
  current d u hu := by
    by_cases hd : d = c
    · subst hd
      exact hs.current u hu
    · rw [hs.currentThread d hd] at hu
      obtain ⟨hpin, hon⟩ := h.current d u hu
      have hne : u ≠ x := by
        rintro rfl
        rcases hs.pinned with hp | hp
        · rw [hp, Phase.not_onCore_unborn] at hon
          cases hon
        · exact hd (hpin.symm.trans hp)
      rw [hs.core d hd, hs.phase u hne, Kernel.pinnedCore, hs.tcb u hne]
      exact ⟨hpin, hon⟩
  thread u := by
    by_cases hx : u = x
    · exact hx ▸ hs.acted
    rw [hs.phase u hx]
    refine (h.thread u).frame (hs.tcb u hx) (by rw [hs.fiber]) (by rw [hs.waits])
      (fun v => by rw [hs.waits]) (hs.executing u hx) fun hr hu => ?_
    by_cases hd : m.kernel.pinnedCore u = c
    · rw [hd]
      exact hs.running u hx hr hd
    · rw [hs.currentThread _ hd]
      exact hu

/-- Threads pinned to a core that is in its scheduler fiber before and after do
not execute; the others are not affected. -/
theorem executing_off (hoff : m.core c ≠ .thread)
    (hcore : ∀ d, d ≠ c → m'.core d = m.core d)
    (hcurrent : ∀ d, d ≠ c → m'.kernel.current d = m.kernel.current d)
    (hpin : m'.kernel.pinnedCore t = m.kernel.pinnedCore t)
    (hoff' : m'.core c = .thread → m'.kernel.current c ≠ some t) :
    m.Executing t ↔ m'.Executing t := by
  simp only [Machine.Executing, hpin]
  by_cases hd : m.kernel.pinnedCore t = c
  · rw [hd]
    exact iff_of_false (fun he => hoff he.1) fun he => hoff' he.1 he.2
  · rw [hcore _ hd, hcurrent _ hd]

/-! ## The scheduler fiber moves on -/

/-- The scheduler fiber of `c` moves between points that allow the same phases
of the current thread. -/
theorem Sim.coreMove (h : Sim cfg m a) {pc : CorePc} (hoff : m.core c ≠ .thread)
    (hboot : m.core c ≠ .boot) (hpc : pc ≠ .thread) (hpc' : pc ≠ .boot)
    (hon : ∀ φ : Phase, φ.onCore (m.core c) = true → φ.onCore pc = true) :
    Sim cfg (m.coreGoto m.kernel c pc) a where
  ready := h.ready
  queued := h.queued
  waiting := h.waiting
  born := h.born
  idle := h.idle
  inbox := h.inbox
  claims := h.claims
  boot d := by
    have hd := h.boot d
    by_cases hdc : d = c
    · subst hdc
      simp only [Machine.coreGoto, Function.update_self]
      exact iff_of_false hpc' fun hn => hboot (hd.mpr hn)
    · simpa [Machine.coreGoto, hdc] using hd
  current d u hu := by
    obtain ⟨hpin, hold⟩ := h.current d u hu
    refine ⟨hpin, ?_⟩
    by_cases hdc : d = c
    · subst hdc
      simpa [Machine.coreGoto] using hon _ hold
    · simpa [Machine.coreGoto, hdc] using hold
  thread u := by
    refine (h.thread u).frame rfl rfl rfl (fun _ => Nat.le_refl _) ?_ fun _ => id
    exact executing_off hoff (fun d hd => by simp [Machine.coreGoto, hd]) (fun _ _ => rfl) rfl
      (fun he => absurd he (by simpa [Machine.coreGoto] using hpc))

/-! ## Draining -/

/-- The thread at the head of the inbox of core `c`. -/
theorem Sim.inbox_head (h : Sim cfg m a) {rest : List ThreadRef}
    (hin : (m.kernel.schedulers c).inbox = x :: rest) :
    (a.phase x = .postedNew ∨ a.phase x = .posted) ∧ m.kernel.pinnedCore x = c ∧
      x.isIdle = false := by
  obtain ⟨hp, hpin⟩ := ((h.inbox c).2 x).mp (by simp [hin])
  have hcase : a.phase x = .postedNew ∨ a.phase x = .posted := by
    cases hx : a.phase x <;> simp_all [Phase.inInbox]
  refine ⟨hcase, hpin, h.not_idle ?_ ?_ ?_⟩ <;> rcases hcase with hx | hx <;> simp [hx]

/-- A thread that goes to the ready phase while it is off its core. -/
theorem ThreadOk.toReady {φ : Phase} (hx : ThreadOk cfg m φ x) (hoff : ¬ m.Executing x)
    (hborn : φ ≠ .unborn) (hdead : φ ≠ .dead) (hwait : φ.isWaiting = false)
    (hadm : Phase.ready.admits (m.fiber x) = true)
    (htcb : m'.kernel.tcbs x = { m.kernel.tcbs x with state := .ready })
    (hfiber : m'.fiber = m.fiber) (hwaits : m'.waits = m.waits) (hoff' : ¬ m'.Executing x) :
    ThreadOk cfg m' .ready x where
  state := by simp [Kernel.state, htcb, Phase.state]
  core_lt _ := by simpa [Kernel.pinnedCore, htcb] using hx.core_lt hborn
  priority_lt := by simpa [Kernel.priority, htcb] using hx.priority_lt
  waiting_done := by simp [Phase.isWaiting]
  done_waiting hd := by
    have hd' : m.kernel.done x = false := by simpa [Kernel.done, htcb] using hd
    rw [hwaits]
    exact (hx.done_waiting hd').imp_left fun hw => by simp [hwait] at hw
  waits_pos := by simp [Phase.state]
  waits_unborn := by simp
  admits := by rw [hfiber]; exact hadm
  consistent := by rw [hfiber, hwaits]; exact hx.consistent
  executing := .inr (by rw [hfiber]; exact hx.executing.resolve_left hoff)
  blocked he := absurd he hoff'
  running := by simp
  inbox_cores := by simp [Phase.inInbox]
  terminated := by
    rw [htcb, hx.terminated]
    simp [hdead]
  idle_fiber := by rw [hfiber]; exact hx.idle_fiber

/-- The idle thread of a core is the only one its scheduler keeps apart. -/
theorem Sim.ne_idleThread (h : Sim cfg m a) (hx : x.isIdle = false) :
    (m.kernel.schedulers c).idleThread ≠ some x := by
  rw [(h.idle c).1]
  intro he
  rw [← Option.some.inj he] at hx
  cases hx

/-- Off its core, a thread that is neither exiting nor waiting may be ready. -/
theorem ThreadOk.ready_admits {φ : Phase} (hx : ThreadOk cfg m φ x) (hoff : ¬ m.Executing x)
    (hφ : φ = .running ∨ φ = .postedNew ∨ φ = .posted) :
    Phase.ready.admits (m.fiber x) = true := by
  have hsus := hx.executing.resolve_left hoff
  have hadm := hx.admits
  rcases hφ with hφ | hφ | hφ <;> rw [hφ] at hadm <;> cases hf : m.fiber x <;>
    simp_all [Phase.admits, ThreadPc.suspended, ThreadPc.exiting]

/-- The scheduler fiber of `c` makes its thread `x` ready. What differs between
the callers is where the thread comes from: `hready`, `hqueued` and `hinbox`
speak of the ready matrix and of the inboxes afterwards. -/
theorem Sim.toReady (h : Sim cfg m a) (hcore : m.core c = .drain ∨ m.core c = .switch)
    (hpin : m.kernel.pinnedCore x = c)
    (hfrom : a.phase x = .running ∨ a.phase x = .postedNew ∨ a.phase x = .posted) {k : Kernel}
    (htcbs : k.tcbs = Function.update m.kernel.tcbs x { m.kernel.tcbs x with state := .ready })
    (hwaiters : k.waiters = m.kernel.waiters) (hthreads : k.threads = m.kernel.threads)
    (hsched : ∀ d, ∃ bits inbox, k.schedulers d =
      { m.kernel.schedulers d with bitmap := bits, inbox := inbox })
    (hphases : a'.phase = Function.update a.phase x .ready) (hlists : a'.waiters = a.waiters)
    (hready : ReadyRep k a'.queue)
    (hqueued : ∀ d p u, u ∈ a'.queue (d, p) ↔ a'.phase u = .ready ∧ u.isIdle = false ∧
      k.pinnedCore u = d ∧ k.priority u = p)
    (hinbox : ∀ d, (k.schedulers d).inbox.Nodup ∧ ∀ u, u ∈ (k.schedulers d).inbox ↔
      (a'.phase u).inInbox = true ∧ m.kernel.pinnedCore u = d) :
    Sim cfg { m with kernel := k } a' := by
  have hxok := h.thread x
  have hoff : ¬ m.Executing x := by
    rintro ⟨he, -⟩
    rw [hpin] at he
    rcases hcore with hc | hc <;> simp [hc] at he
  have hadm := hxok.ready_admits hoff hfrom
  have hold : a.phase x ≠ .unborn ∧ a.phase x ≠ .dead ∧
      (a.phase x).isWaiting = false ∧ (a.phase x).held = [] ∧ (a.phase x).claim = none := by
    rcases hfrom with hx | hx | hx <;> simp [hx, Phase.isWaiting, Phase.held, Phase.claim]
  obtain ⟨hborn, hdead, hwait, hheld, hclaim⟩ := hold
  have hself : a'.phase x = .ready := by rw [hphases, Function.update_self]
  have hphase : ∀ u, u ≠ x → a'.phase u = a.phase u := fun u hu => by
    rw [hphases, Function.update_of_ne hu]
  have hpins := Kernel.pinnedCore_of_state htcbs
  have hcurrent : ∀ d, k.current d = m.kernel.current d := fun d => by
    obtain ⟨bits, inbox, hd⟩ := hsched d
    rw [Kernel.current, hd]
    rfl
  have hexec : ∀ u, m.Executing u ↔ Machine.Executing { m with kernel := k } u := fun u => by
    simp only [Machine.Executing, hpins, hcurrent]
  refine CoreStep.sim h (c := c) (x := x)
    { core := fun _ _ => rfl
      fiber := rfl
      waits := rfl
      tcb := fun u hu => by rw [htcbs, Function.update_of_ne hu]
      phase := hphase
      currentThread := fun d _ => hcurrent d
      executing := fun u _ => hexec u
      running := fun u _ hr hu => by rw [hcurrent, ← hu]; exact (h.thread u).running hr
      idleThread := fun d => ?_
      pinned := .inr hpin
      pinned' := (hpins x).trans hpin
      ready := hready
      queued := hqueued
      waiting := ?_
      acted := ?_
      born := h.born_frame hthreads hphase (by simp [hself, hborn])
      idle := fun _ => ⟨hborn, .inl hself⟩
      boot := by rw [hcurrent]; exact h.boot c
      current := fun u hu => ?_
      inbox := fun d => by simpa only [hpins] using hinbox d
      claims := by rw [hphases]; exact h.claims.update_phase hclaim.symm }
  · obtain ⟨bits, inbox, hd⟩ := hsched d
    simp only [hd]
  · rw [hlists]
    refine h.waiting_frame hwaiters (fun u => ?_) hphase (by rw [hself, hheld]; rfl)
    obtain ⟨st, hu⟩ := Kernel.tcb_of_state htcbs u
    rw [hu]
  · rw [hself]
    exact hxok.toReady hoff hborn hdead hwait hadm (by rw [htcbs, Function.update_self]) rfl rfl
      fun he => hoff ((hexec x).mpr he)
  · rw [hcurrent] at hu
    obtain ⟨hp, hon⟩ := h.current c u hu
    refine ⟨(hpins u).trans hp, ?_⟩
    -- The thread may be the current one: it is then both current and ready.
    by_cases hux : u = x
    · rw [hux, hself]
      rcases hcore with hc | hc <;> simp only [hc] <;> rfl
    · rw [hphase u hux]
      exact hon

/-- The kernel after the head of the inbox of `c` has been drained. -/
def Kernel.drained (k : Kernel) (c : Nat) (x : ThreadRef) (rest : List ThreadRef) : Kernel :=
  (k.modifySched c fun s => { s with inbox := rest }).makeReady c x

theorem Kernel.drained_schedulers (k : Kernel) (c d : Nat) (x : ThreadRef)
    (rest : List ThreadRef) : ∃ bits, (k.drained c x rest).schedulers d =
      { k.schedulers d with
        bitmap := bits, inbox := if d = c then rest else (k.schedulers d).inbox } := by
  obtain ⟨bits, hb⟩ := Kernel.makeReady_schedulers
    (k.modifySched c fun s => { s with inbox := rest }) c d x
  refine ⟨bits, ?_⟩
  rw [Kernel.drained, hb]
  by_cases hd : d = c
  · subst hd
    simp [Kernel.modifySched]
  · simp [Kernel.modifySched, hd]

/-- `drain_inbox` readies the thread of the oldest request. The thread may be
the current one, which is then both current and in the ready matrix. -/
theorem Sim.drainOne (h : Sim cfg m a) (hcore : m.core c = .drain) {rest : List ThreadRef}
    (hin : (m.kernel.schedulers c).inbox = x :: rest) :
    Scheduler.drainOne cfg m.kernel c = .ok (some (m.kernel.drained c x rest)) ∧
      Sim cfg { m with kernel := m.kernel.drained c x rest }
        (a.enqueue c (m.kernel.priority x) x) := by
  obtain ⟨hcase, hpin, hidle⟩ := h.inbox_head hin
  have hxok := h.thread x
  have hnready : a.phase x ≠ .ready := by rcases hcase with hx | hx <;> simp [hx]
  have hsched := fun d => m.kernel.drained_schedulers c d x rest
  let k₁ := m.kernel.modifySched c fun s => { s with inbox := rest }
  have hready₁ : ReadyRep k₁ a.queue := by
    refine h.ready.congr rfl fun d => ?_
    by_cases hd : d = c
    · subst hd
      simp [k₁, Kernel.modifySched]
    · simp [k₁, Kernel.modifySched, hd]
  obtain ⟨hready, hqueued⟩ := hready₁.makeReady h.queued hnready hidle hpin
    (Nat.lt_of_lt_of_le hxok.priority_lt cfg.priorities_le)
  constructor
  · have hlink : k₁.ready.isEnqueued x = false :=
      h.ready.links.not_isEnqueued (h.not_queued hnready)
    have hne : (k₁.schedulers c).idleThread ≠ some x := by
      simpa [k₁, Kernel.modifySched] using h.ne_idleThread hidle
    have := Scheduler.setThreadReady_eq (k := k₁) hpin hne hxok.priority_lt hlink
    simp only [Scheduler.drainOne, hin]
    change (Scheduler.setThreadReady cfg k₁ c x >>= fun k' => pure (some k')) = _
    rw [this]
    rfl
  · have hself : (a.enqueue c (m.kernel.priority x) x).phase x = .ready :=
      Function.update_self _ _ _
    have hphase : ∀ u, u ≠ x → (a.enqueue c (m.kernel.priority x) x).phase u = a.phase u :=
      fun u hu => Function.update_of_ne hu _ _
    refine h.toReady (.inl hcore) hpin (.inr hcase) rfl rfl rfl
      (fun d => (hsched d).imp fun _ hb => ⟨_, hb⟩) rfl rfl hready hqueued fun d => ?_
    obtain ⟨hnd, hmem⟩ := h.inbox d
    obtain ⟨bits, hb⟩ := hsched d
    simp only [hb]
    by_cases hd : d = c
    · subst hd
      rw [hin, List.nodup_cons] at hnd
      refine ⟨by simpa using hnd.2, fun u => ?_⟩
      have hu' := hmem u
      rw [hin, List.mem_cons] at hu'
      by_cases hu : u = x
      · subst hu
        simp [hself, hnd.1, Phase.inInbox]
      · simpa [hu, hphase u hu] using hu'
    · rw [if_neg hd]
      refine ⟨hnd, fun u => ?_⟩
      rw [hmem]
      by_cases hu : u = x
      · subst hu
        simp [hself, Phase.inInbox, hpin, Ne.symm hd]
      · rw [hphase u hu]

/-! ## Switching -/

/-- The outgoing thread, if it is running, goes back to the ready phase. -/
def Kernel.rotated (k : Kernel) (c : Nat) (t : ThreadRef) : Kernel :=
  if k.state t = .running then
    if t.isIdle then k.setState t .ready else k.makeReady c t
  else k

/-- The same on the abstract state. -/
def Life.rotated (a : Life) (c p : Nat) (t : ThreadRef) : Life :=
  if a.phase t = .running then
    if t.isIdle then a.setPhase t .ready else a.enqueue c p t
  else a

theorem Kernel.rotated_fields (k : Kernel) (c : Nat) (t : ThreadRef) :
    (k.rotated c t).waiters = k.waiters ∧ (k.rotated c t).threads = k.threads ∧
      (k.rotated c t).isRunning = k.isRunning ∧
      (∀ u, ∃ st, (k.rotated c t).tcbs u = { k.tcbs u with state := st }) ∧
      ∀ d, ∃ bits, (k.rotated c t).schedulers d = { k.schedulers d with bitmap := bits } := by
  have hset : ∀ u, ∃ st, (k.setState t .ready).tcbs u = { k.tcbs u with state := st } := fun u => by
    by_cases hu : u = t
    · subst hu
      exact ⟨.ready, by simp [Kernel.setState, Kernel.modifyTcb]⟩
    · exact ⟨(k.tcbs u).state, by simp [Kernel.setState, Kernel.modifyTcb, hu]⟩
  rw [Kernel.rotated]
  split
  · split
    · exact ⟨rfl, rfl, rfl, hset, fun d => ⟨_, rfl⟩⟩
    · exact ⟨rfl, rfl, rfl, hset, fun d => k.makeReady_schedulers c d t⟩
  · exact ⟨rfl, rfl, rfl, fun u => ⟨_, rfl⟩, fun d => ⟨_, rfl⟩⟩

/-- The ready matrix after the running thread `t` has been put back. The idle
thread goes back to the ready phase without entering the matrix. -/
theorem Sim.rotated_queues (h : Sim cfg m a) (hrun : a.phase t = .running)
    (hst : m.kernel.state t = .running) (hpin : m.kernel.pinnedCore t = c) :
    ReadyRep (m.kernel.rotated c t) (a.rotated c (m.kernel.priority t) t).queue ∧
      ∀ d p u, u ∈ (a.rotated c (m.kernel.priority t) t).queue (d, p) ↔
        (a.rotated c (m.kernel.priority t) t).phase u = .ready ∧ u.isIdle = false ∧
          (m.kernel.rotated c t).pinnedCore u = d ∧ (m.kernel.rotated c t).priority u = p := by
  rw [Kernel.rotated, if_pos hst, Life.rotated, if_pos hrun]
  by_cases hidle : t.isIdle = true
  · rw [if_pos hidle, if_pos hidle]
    refine ⟨h.ready.congr rfl fun _ => rfl, fun d p u => ?_⟩
    simp only [Life.setPhase]
    rw [h.queued]
    by_cases hu : u = t
    · subst hu
      simp [hidle]
    · simp [Kernel.pinnedCore, Kernel.priority, Kernel.setState, Kernel.modifyTcb, hu]
  · rw [if_neg hidle, if_neg hidle]
    exact h.ready.makeReady h.queued (by simp [hrun]) (by simpa using hidle) hpin
      (Nat.lt_of_lt_of_le (h.thread t).priority_lt cfg.priorities_le)

/-- A running thread is put back by `set_thread_ready`. -/
theorem Sim.rotate_running (h : Sim cfg m a) (hrun : a.phase t = .running)
    (hst : m.kernel.state t = .running) (hpin : m.kernel.pinnedCore t = c) :
    Scheduler.rotate cfg m.kernel c t = .ok (m.kernel.rotated c t) := by
  simp only [Scheduler.rotate, hst]
  rw [Kernel.rotated, if_pos hst]
  by_cases hidle : t.isIdle = true
  · rw [if_pos hidle]
    obtain ⟨e, rfl⟩ : ∃ e, t = .idle e := by
      cases t <;> simp [ThreadRef.isIdle] at hidle ⊢
    obtain ⟨hi, hpe, -⟩ := h.idle e
    have hec : e = c := hpe.symm.trans hpin
    subst hec
    exact Scheduler.setThreadReady_idle hpin hi
  · rw [if_neg hidle]
    exact Scheduler.setThreadReady_eq hpin (h.ne_idleThread (by simpa using hidle))
      (h.thread t).priority_lt (h.ready.links.not_isEnqueued (h.not_queued (by simp [hrun])))

/-- The switch over `previous_thread->state`: with the current thread not Ready
it puts a running thread back and leaves the others alone. -/
theorem Sim.rotate (h : Sim cfg m a) (hcore : m.core c = .switch)
    (hcur : m.kernel.current c = some t) :
    Sim cfg { m with kernel := m.kernel.rotated c t } (a.rotated c (m.kernel.priority t) t) ∧
      (a.rotated c (m.kernel.priority t) t).phase t ≠ .running ∧
      (a.phase t ≠ .ready →
        Scheduler.rotate cfg m.kernel c t = .ok (m.kernel.rotated c t)) := by
  obtain ⟨hpin, hon⟩ := h.current c t hcur
  have htok := h.thread t
  by_cases hrun : a.phase t = .running
  · have hst : m.kernel.state t = .running := by rw [htok.state, hrun]; rfl
    obtain ⟨hw, hth, -, -, hsched⟩ := m.kernel.rotated_fields c t
    obtain ⟨hready, hqueued⟩ := h.rotated_queues hrun hst hpin
    have htcbs : (m.kernel.rotated c t).tcbs =
        Function.update m.kernel.tcbs t { m.kernel.tcbs t with state := .ready } := by
      rw [Kernel.rotated, if_pos hst]
      split <;> rfl
    have hphases : (a.rotated c (m.kernel.priority t) t).phase =
        Function.update a.phase t .ready := by
      rw [Life.rotated, if_pos hrun]
      split <;> rfl
    have hlists : (a.rotated c (m.kernel.priority t) t).waiters = a.waiters := by
      rw [Life.rotated, if_pos hrun]
      split <;> rfl
    refine ⟨?_, by simp [hphases], fun _ => h.rotate_running hrun hst hpin⟩
    refine h.toReady (.inr hcore) hpin (.inl hrun) htcbs hw hth
      (fun d => (hsched d).imp fun _ hb => ⟨_, hb⟩) hphases hlists hready hqueued fun d => ?_
    -- The inboxes stay as they are: a running thread is in none of them.
    obtain ⟨bits, hb⟩ := hsched d
    rw [hb, hphases]
    refine ⟨(h.inbox d).1, fun u => ?_⟩
    rw [(h.inbox d).2]
    by_cases hu : u = t
    · subst hu
      simp [hrun, Phase.inInbox]
    · rw [Function.update_of_ne hu]
  · have hst : m.kernel.state t ≠ .running := by
      rw [htok.state]
      cases hp : a.phase t <;> simp_all [Phase.state]
    have hk : m.kernel.rotated c t = m.kernel := by rw [Kernel.rotated, if_neg hst]
    have ha : a.rotated c (m.kernel.priority t) t = a := by rw [Life.rotated, if_neg hrun]
    rw [hk, ha]
    refine ⟨h, hrun, fun hnr => ?_⟩
    have hnready : m.kernel.state t ≠ .ready := by
      rw [htok.state]
      cases hp : a.phase t <;> simp_all [Phase.state, Phase.onCore]
    cases hs : m.kernel.state t <;> simp_all [Scheduler.rotate]

/-! ## Dispatching -/

/-- A ready thread that is put on its core. -/
theorem ThreadOk.toRunning (hx : ThreadOk cfg m .ready x)
    (htcb : m'.kernel.tcbs x = { m.kernel.tcbs x with state := .running })
    (hfiber : m'.fiber = m.fiber) (hwaits : m'.waits = m.waits) (hexec : m'.Executing x) :
    ThreadOk cfg m' .running x where
  state := by simp [Kernel.state, htcb, Phase.state]
  core_lt _ := by simpa [Kernel.pinnedCore, htcb] using hx.core_lt (by simp)
  priority_lt := by simpa [Kernel.priority, htcb] using hx.priority_lt
  waiting_done := by simp [Phase.isWaiting]
  done_waiting := by
    rw [hwaits]
    simpa [Kernel.done, htcb, Phase.isWaiting] using hx.done_waiting
  waits_pos := by simp [Phase.state]
  waits_unborn := by simp
  admits := by
    have hadm := hx.admits
    rw [hfiber]
    cases hf : m.fiber x <;> simp_all [Phase.admits, ThreadPc.suspended, ThreadPc.exiting]
  consistent := by rw [hfiber, hwaits]; exact hx.consistent
  executing := .inl hexec
  blocked := by simp [Phase.state]
  running _ := hexec.2
  inbox_cores := by simp [Phase.inInbox]
  terminated := by simpa [htcb] using hx.terminated
  idle_fiber := by rw [hfiber]; exact hx.idle_fiber

/-- A ready thread of core `c`, taken off its queue, is dispatched. -/
theorem Sim.dispatch (h : Sim cfg m a) (hoff : m.core c ≠ .thread)
    (hcur : ∀ u, m.kernel.current c = some u → a.phase u ≠ .running)
    (hx : a.phase x = .ready) (hpin : m.kernel.pinnedCore x = c) {k : Kernel}
    {q : Nat × Nat → List ThreadRef} (htcbs : k.tcbs = m.kernel.tcbs)
    (hwaiters : k.waiters = m.kernel.waiters) (hthreads : k.threads = m.kernel.threads)
    (hsched : ∀ d, ∃ bits, k.schedulers d = { m.kernel.schedulers d with bitmap := bits })
    (hrep : ReadyRep k q)
    (hq : ∀ d p u, u ∈ q (d, p) ↔ Function.update a.phase x .running u = .ready ∧
      u.isIdle = false ∧ m.kernel.pinnedCore u = d ∧ m.kernel.priority u = p) :
    Sim cfg (m.coreGoto (Scheduler.dispatch k c x) c .thread)
      { a with phase := Function.update a.phase x .running, queue := q } := by
  have htcbs' : (Scheduler.dispatch k c x).tcbs =
      Function.update m.kernel.tcbs x { m.kernel.tcbs x with state := .running } := by
    simp [Scheduler.dispatch, Kernel.setState, Kernel.modifyTcb, Kernel.modifySched, htcbs]
  have hfields : ∀ d, ∃ bits, (Scheduler.dispatch k c x).schedulers d =
      { m.kernel.schedulers d with
        bitmap := bits
        currentThread := if d = c then some x else (m.kernel.schedulers d).currentThread } := by
    intro d
    obtain ⟨bits, hb⟩ := hsched d
    refine ⟨bits, ?_⟩
    by_cases hd : d = c
    · subst hd
      simp [Scheduler.dispatch, Kernel.setState, Kernel.modifyTcb, Kernel.modifySched, hb]
    · simp [Scheduler.dispatch, Kernel.setState, Kernel.modifyTcb, Kernel.modifySched, hb, hd]
  have hcurrent : ∀ d, (Scheduler.dispatch k c x).current d =
      if d = c then some x else m.kernel.current d := fun d => by
    obtain ⟨bits, hb⟩ := hfields d
    rw [Kernel.current, hb]
    rfl
  have hpins := Kernel.pinnedCore_of_state htcbs'
  have hprios := Kernel.priority_of_state htcbs'
  let a' : Life := { a with phase := Function.update a.phase x .running, queue := q }
  have hself : a'.phase x = .running := Function.update_self _ _ _
  have hphase : ∀ u, u ≠ x → a'.phase u = a.phase u := fun u hu => Function.update_of_ne hu _ _
  change Sim cfg _ a'
  have hxok := h.thread x
  rw [hx] at hxok
  have hcore' : (m.coreGoto (Scheduler.dispatch k c x) c .thread).core c = .thread :=
    Function.update_self _ _ _
  have hexec' : (m.coreGoto (Scheduler.dispatch k c x) c .thread).Executing x := by
    rw [Machine.Executing]
    simp only [Machine.coreGoto, hpins, hpin, Function.update_self, hcurrent, if_true, true_and]
  have hrep' : ReadyRep (Scheduler.dispatch k c x) q := by
    refine hrep.congr rfl fun d => ?_
    by_cases hd : d = c
    · subst hd
      simp [Scheduler.dispatch, Kernel.setState, Kernel.modifyTcb, Kernel.modifySched]
    · simp [Scheduler.dispatch, Kernel.setState, Kernel.modifyTcb, Kernel.modifySched, hd]
  refine CoreStep.sim h (c := c) (x := x)
    { core := fun d hd => Function.update_of_ne hd _ _
      fiber := rfl
      waits := rfl
      tcb := fun u hu => by simp only [Machine.coreGoto, htcbs', Function.update_of_ne hu]
      phase := hphase
      currentThread := fun d hd => by simp only [Machine.coreGoto, hcurrent, if_neg hd]
      executing := fun u hu => ?_
      running := fun u _ hr hu => ?_
      idleThread := fun d => ?_
      pinned := .inr hpin
      pinned' := (hpins x).trans hpin
      ready := hrep'
      queued := fun d p u => by
        simp only [Machine.coreGoto, hpins, hprios]
        exact hq d p u
      waiting := h.waiting_frame hwaiters (fun u => ?_) hphase (by simp [hself, hx, Phase.held])
      acted := ?_
      born := h.born_frame hthreads hphase (by simp [hself, hx])
      idle := fun _ => ⟨by simp [hx], .inr hself⟩
      boot := by simp [Machine.coreGoto, hcurrent]
      current := fun u hu => ?_
      inbox := h.inbox_frame (fun d => ?_)
        (fun u hu => by simp only [Machine.coreGoto, htcbs', Function.update_of_ne hu]) hphase
        (by simp [hx, Phase.inInbox]) (by simp [hself, Phase.inInbox])
      claims := h.claims.update_phase (by simp [hx, Phase.claim]) }
  · refine executing_off hoff (fun d hd => Function.update_of_ne hd _ _)
      (fun d hd => by simp only [Machine.coreGoto, hcurrent, if_neg hd]) (hpins u) fun _ => ?_
    simp only [Machine.coreGoto, hcurrent, if_true]
    exact fun he => hu (Option.some.inj he).symm
  · have := (h.thread u).running hr
    rw [hu] at this
    exact absurd hr (hcur u this)
  · obtain ⟨bits, hb⟩ := hfields d
    simp only [Machine.coreGoto, hb]
  · obtain ⟨st, hu⟩ := Kernel.tcb_of_state htcbs' u
    show ((Scheduler.dispatch k c x).tcbs u).waitNodes = _
    rw [hu]
  · rw [hself]
    exact hxok.toRunning (by simp [Machine.coreGoto, htcbs']) rfl rfl hexec'
  · simp only [Machine.coreGoto, hcurrent, if_true, Option.some.injEq] at hu
    subst hu
    refine ⟨(hpins x).trans hpin, ?_⟩
    rw [hself, hcore']
    rfl
  · obtain ⟨bits, hb⟩ := hfields d
    simp only [Machine.coreGoto, hb]

/-- The next thread of core `c`: the head of its first non-empty ready queue, or
the idle thread. -/
inductive Life.Selects (a : Life) (c : Nat) : ThreadRef → Life → Prop
  | idle (hempty : ∀ p, a.queue (c, p) = []) :
    Selects a c (.idle c) (a.setPhase (.idle c) .running)
  | head {p : Nat} {t : ThreadRef} {rest : List ThreadRef} (hq : a.queue (c, p) = t :: rest)
    (hfirst : ∀ p', p' < p → a.queue (c, p') = []) :
    Selects a c t (a.dequeue c p t rest)

/-- `pop_best_thread` (or the idle thread) and its dispatch. -/
theorem Sim.select (h : Sim cfg m a) (hc : c < cfg.cores) (hoff : m.core c ≠ .thread)
    (hcur : ∀ u, m.kernel.current c = some u → a.phase u ≠ .running) :
    ∃ next k a', Scheduler.popNext m.kernel c = .ok (next, k) ∧ k.state next = .ready ∧
      k.isRunning = m.kernel.isRunning ∧ a.Selects c next a' ∧
      Sim cfg (m.coreGoto (Scheduler.dispatch k c next) c .thread) a' := by
  obtain ⟨hi, hipin, hiphase⟩ := h.idle c
  rcases h.ready.popBestThread c with ⟨hpop, hempty⟩ | ⟨p, t, rest, hq, hfirst, hpop⟩
  · have hready : a.phase (.idle c) = .ready := by
      rcases hiphase with ⟨-, hle⟩ | ⟨hr | hr, -⟩
      · omega
      · exact hr
      · have := (h.thread (.idle c)).running hr
        rw [hipin] at this
        exact absurd hr (hcur _ this)
    refine ⟨.idle c, m.kernel, _, by simp [Scheduler.popNext, hpop, hi], ?_, rfl, .idle hempty, ?_⟩
    · rw [(h.thread _).state, hready]
      rfl
    · refine h.dispatch hoff hcur hready hipin rfl rfl rfl (fun d => ⟨_, rfl⟩) h.ready
        fun d p u => ?_
      rw [h.queued]
      by_cases hu : u = .idle c
      · subst hu
        simp [ThreadRef.isIdle]
      · rw [Function.update_of_ne hu]
  · obtain ⟨hready, hidle, hpin, hprio⟩ := (h.queued c p t).mp (by simp [hq])
    have hstate : (m.kernel.dropReady c p).state t = .ready := by
      have := (h.thread t).state
      rw [hready] at this
      exact this
    refine ⟨t, m.kernel.dropReady c p, _, by simp [Scheduler.popNext, hpop], hstate, rfl,
      .head hq hfirst, ?_⟩
    refine h.dispatch hoff hcur hready hpin rfl rfl rfl (fun d => ?_) (h.ready.dropReady hq)
      fun d p' u => ?_
    · by_cases hd : d = c
      · subst hd
        exact ⟨_, by simp only [Kernel.dropReady, Function.update_self]; rfl⟩
      · exact ⟨(m.kernel.schedulers d).bitmap, by simp [Kernel.dropReady, hd]⟩
    · have hnd := h.ready.links.nodup (c, p)
      rw [hq, List.nodup_cons] at hnd
      by_cases hdp : (d, p') = (c, p)
      · obtain ⟨rfl, rfl⟩ := Prod.mk.inj hdp
        have hmem := h.queued d p' u
        rw [hq, List.mem_cons] at hmem
        rw [Function.update_self]
        by_cases hu : u = t
        · subst hu
          simp [hnd.1]
        · simpa [hu] using hmem
      · rw [Function.update_of_ne hdp, h.queued]
        by_cases hu : u = t
        · subst hu
          have hne : ¬ (m.kernel.pinnedCore u = d ∧ m.kernel.priority u = p') := by
            rintro ⟨rfl, rfl⟩
            exact hdp (by rw [hpin, hprio])
          simp [hne]
        · rw [Function.update_of_ne hu]

/-! ## Before the cores run -/

/-- `main` constructs a thread, which goes straight to the ready matrix of its
core. -/
theorem Sim.constructBoot (h : Sim cfg m a) {priority : UInt8} {affinity : BitVec 32} {d : Nat}
    (hprio : priority.toNat < cfg.maxPriorities) (hd : d < cfg.cores)
    (hx : x = .user m.kernel.threads) {k : Kernel} (hk : k = m.kernel.constructed cfg priority affinity d) :
    (k.priority x < cfg.maxPriorities ∧ k.pinnedCore x = d ∧ k.state x = .ready ∧
      k.ready.isEnqueued x = false ∧ (k.schedulers d).idleThread ≠ some x) ∧
      Sim cfg { m with kernel := k.makeReady d x } (a.enqueue d (k.priority x) x) := by
  have hunborn : a.phase x = .unborn := by rw [hx]; exact (h.born _).mpr (Nat.le_refl _)
  have hblock : k.tcbs x = { Kernel.newTcb cfg (.user m.kernel.threads) m.kernel.threadIdGenerator
      priority.toNat affinity with pinnedCore := d } := by
    rw [hk, Kernel.constructed_tcbs, hx, Function.update_self]
  have hp : k.priority x = priority.toNat := by rw [Kernel.priority, hblock]; rfl
  have hpin : k.pinnedCore x = d := by rw [Kernel.pinnedCore, hblock]
  have hlink : k.ready.isEnqueued x = false := by
    rw [hk]
    exact h.ready.links.not_isEnqueued (h.not_queued (by simp [hunborn]))
  have hksched := hk ▸ m.kernel.constructed_schedulers cfg priority affinity d
  have hktcb : ∀ u, u ≠ x → k.tcbs u = m.kernel.tcbs u := fun u hu => by
    rw [hk, Kernel.constructed_tcbs, Function.update_of_ne (hx ▸ hu)]
  have hsched : ∀ e, ∃ n bits, (k.makeReady d x).schedulers e =
      { m.kernel.schedulers e with pinnedThreadCounter := n, bitmap := bits } := fun e => by
    obtain ⟨n, hn⟩ := hksched e
    obtain ⟨bits, hb⟩ := k.makeReady_schedulers d e x
    exact ⟨n, bits, by rw [hb, hn]⟩
  refine ⟨⟨hp ▸ hprio, hpin, by rw [Kernel.state, hblock]; rfl, hlink, ?_⟩, ?_⟩
  · obtain ⟨n, hn⟩ := hksched d
    rw [hn, hx]
    simp [(h.idle d).1]
  have hrep : ReadyRep k a.queue := h.ready.congr (by rw [hk]; rfl) fun e => by
    obtain ⟨n, hn⟩ := hksched e
    rw [hn]
  have hq : ∀ e p u, u ∈ a.queue (e, p) ↔ a.phase u = .ready ∧ u.isIdle = false ∧
      k.pinnedCore u = e ∧ k.priority u = p := by
    intro e p u
    rw [h.queued]
    by_cases hu : u = x
    · subst hu
      simp [hunborn]
    · simp [Kernel.pinnedCore, Kernel.priority, hktcb u hu]
  obtain ⟨hready, hqueued⟩ := hrep.makeReady hq (by simp [hunborn]) (by rw [hx]; rfl) hpin
    (Nat.lt_of_lt_of_le (hp ▸ hprio) cfg.priorities_le)
  have htcb : ∀ u, u ≠ x → (k.makeReady d x).tcbs u = m.kernel.tcbs u := fun u hu => by
    rw [Kernel.makeReady_tcbs, Function.update_of_ne hu, hktcb u hu]
  have hblock' : (k.makeReady d x).tcbs x = k.tcbs x := by
    rw [Kernel.makeReady_tcbs, Function.update_self, hblock]
    rfl
  have hcurrent : ∀ e, (k.makeReady d x).current e = m.kernel.current e := fun e => by
    obtain ⟨n, bits, hb⟩ := hsched e
    rw [Kernel.current, hb]
    rfl
  have hself : (a.enqueue d (k.priority x) x).phase x = .ready :=
      Function.update_self _ _ _
  have hphase : ∀ u, u ≠ x → (a.enqueue d (k.priority x) x).phase u = a.phase u :=
    fun u hu => Function.update_of_ne hu _ _
  have hpins : ∀ u, u ≠ x → (k.makeReady d x).pinnedCore u = m.kernel.pinnedCore u :=
    fun u hu => by rw [Kernel.pinnedCore, htcb u hu]; rfl
  have hncur : ∀ e, m.kernel.current e ≠ some x := fun e he => by
    have := (h.current e x he).2
    rw [hunborn, Phase.not_onCore_unborn] at this
    cases this
  refine CoreStep.sim h (c := d) (x := x)
    { core := fun _ _ => rfl
      fiber := rfl
      waits := rfl
      tcb := htcb
      phase := hphase
      currentThread := fun e _ => hcurrent e
      executing := fun u hu => by simp only [Machine.Executing, hpins u hu, hcurrent]
      running := fun u _ hr hu => by rw [hcurrent, ← hu]; exact (h.thread u).running hr
      idleThread := fun e => ?_
      pinned := .inl hunborn
      pinned' := by rw [Kernel.pinnedCore, hblock']; exact hpin
      ready := hready
      queued := hqueued
      waiting := h.waiting_frame (by rw [hk]; rfl) (fun u => ?_) hphase
        (by simp [hself, hunborn, Phase.held])
      acted := ?_
      born := fun n => ?_
      idle := fun hi => by simp [hx, ThreadRef.isIdle] at hi
      boot := by rw [hcurrent]; exact h.boot d
      current := fun u hu => ?_
      inbox := h.inbox_frame (fun e => ?_) htcb hphase (by simp [hunborn, Phase.inInbox])
        (by simp [hself, Phase.inInbox])
      claims := h.claims.update_phase (by simp [hunborn, Phase.claim]) }
  · obtain ⟨n, bits, hb⟩ := hsched e
    simp only [hb]
  · by_cases hu : u = x
    · subst hu
      rw [hblock', hk, hx]
      exact h.constructed_waiting (hx ▸ hunborn) priority affinity d _
    · rw [htcb u hu]
  · rw [hself]
    exact h.constructed_thread hprio hd (.inr rfl) hx (hblock'.trans hblock) rfl rfl
  · have hth : (k.makeReady d x).threads = m.kernel.threads + 1 := by rw [hk]; rfl
    simp only [hth]
    by_cases hn : n = m.kernel.threads
    · subst hn
      rw [← hx, hself]
      simp
    · rw [hphase _ (by rw [hx]; simpa using hn), h.born]
      omega
  · rw [hcurrent] at hu
    have hne : u ≠ x := fun he => hncur d (he ▸ hu)
    obtain ⟨hp', hon⟩ := h.current d u hu
    rw [hphase u hne]
    exact ⟨(hpins u hne).trans hp', hon⟩
  · obtain ⟨n, bits, hb⟩ := hsched e
    simp only [hb]

/-- The abstract state after `kernel::initialise`. -/
def Life.initial (cfg : Config) : Life where
  phase
    | .idle c => if c < cfg.cores then .ready else .unborn
    | .user _ => .unborn
  queue _ := []
  waiters _ := []

/-- Every thread before its construction, and the idle threads after theirs. -/
theorem ThreadOk.initial {φ : Phase} (hφ : φ = .unborn ∨ φ = .ready)
    (hcore : φ ≠ .unborn → (Machine.initial cfg).kernel.pinnedCore t < cfg.cores) :
    ThreadOk cfg (Machine.initial cfg) φ t where
  state := by rcases hφ with rfl | rfl <;> cases t <;> rfl
  core_lt := hcore
  priority_lt := by
    have hpos := cfg.priorities_pos
    cases t with
    | idle d => exact Nat.sub_lt hpos Nat.one_pos
    | user n => exact hpos
  waiting_done := by rcases hφ with rfl | rfl <;> nofun
  done_waiting _ := .inr rfl
  waits_pos := by rcases hφ with rfl | rfl <;> nofun
  waits_unborn _ := rfl
  admits := by rcases hφ with rfl | rfl <;> cases t <;> rfl
  consistent := by cases t <;> trivial
  executing := .inr (by cases t <;> rfl)
  blocked := nofun
  running := by rcases hφ with rfl | rfl <;> nofun
  inbox_cores := by rcases hφ with rfl | rfl <;> nofun
  terminated := by
    rcases hφ with rfl | rfl <;> cases t <;>
      simp [Machine.initial, Kernel.initialised, Kernel.idleTcb, Kernel.newTcb]
  idle_fiber := by cases t <;> simp [Machine.initial, ThreadRef.isIdle]

theorem Sim.initial (cfg : Config) : Sim cfg (Machine.initial cfg) (Life.initial cfg) where
  ready := ⟨Links.Rep.empty, fun c p => by simp [Machine.initial, Kernel.initialised, Life.initial]⟩
  queued c p t := by
    cases t with
    | idle d => simp [Life.initial, ThreadRef.isIdle]
    | user n => simp [Life.initial]
  waiting := by
    have hheld : ∀ t, ((Life.initial cfg).phase t).held = [] := by
      intro t
      cases t with
      | idle d =>
        simp only [Life.initial]
        split <;> rfl
      | user n => rfl
    refine ⟨Links.Rep.empty, fun t => ?_, fun w n => ?_, fun t => ?_, fun t => ?_⟩
    · rw [hheld]
      cases t <;> exact create_eq _ _
    · rw [hheld]
      simp [Life.initial]
    · rw [hheld]
      exact Nat.zero_le _
    · rw [hheld]
      exact List.nodup_nil
  thread t := by
    cases t with
    | idle d =>
      simp only [Life.initial]
      split
      · next hd => exact .initial (.inr rfl) fun _ => hd
      · exact .initial (.inl rfl) fun hne => absurd rfl hne
    | user n => exact .initial (.inl rfl) fun hne => absurd rfl hne
  born n := by simp [Life.initial, Machine.initial, Kernel.initialised]
  idle c := by
    refine ⟨rfl, rfl, ?_⟩
    by_cases hc : c < cfg.cores
    · simp [Life.initial, hc]
    · simp [Life.initial, hc, Nat.le_of_not_lt hc]
  boot c := iff_of_true rfl rfl
  current c t ht := by cases ht
  inbox c := by
    refine ⟨List.nodup_nil, fun t => ?_⟩
    cases t with
    | idle d =>
      simp only [Life.initial]
      split <;> simp [Machine.initial, Kernel.initialised, Phase.inInbox]
    | user n => simp [Machine.initial, Kernel.initialised, Life.initial, Phase.inInbox]
  claims t u κ := by
    have h₁ : ((Machine.initial cfg).fiber u).claim = none := by cases u <;> rfl
    have h₂ : ((Life.initial cfg).phase t).claim = none := by
      cases t with
      | idle d =>
        simp only [Life.initial]
        split <;> rfl
      | user n => rfl
    simp [h₁, h₂]

end Cortos
