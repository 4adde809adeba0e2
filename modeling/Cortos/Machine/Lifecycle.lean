import Cortos.Kernel.WaitRep
import Cortos.Machine.Basic

/-!
# The life of a thread

What a thread goes through, without pointers, masks or counters. A thread is
constructed and pinned, made ready, dispatched; it blocks, some signaller wins
its wait group, tears its nodes down and readies it again, directly or through
the inbox of its core; in the end its entry function returns. `Phase` is where a
thread is in that life. A phase that is only passed through inside a kernel call
of another thread names that thread, so it cannot be lost or entered twice.

`Life` is the abstract system: the phase of every thread, the ready queues and
the wait queues as plain lists. `Sim cfg m a` says that machine `m` is in
abstract state `a`. It determines thread states, ready matrices, wait nodes,
inboxes and the windows inside kernel calls all at once, on any number of cores.
-/

namespace Cortos

open Lib

/-! ## Phases -/

/-- Where a thread is in its life. -/
inductive Phase where
  /-- Not constructed. -/
  | unborn
  /-- Constructed and pinned; thread `u` is about to make it ready. -/
  | pinned (u : ThreadRef)
  /-- New, in the inbox of its core. -/
  | postedNew
  /-- In the ready matrix (or the idle thread, which is not in the matrix). -/
  | ready
  /-- Dispatched. -/
  | running
  /-- Blocked on `ws`. -/
  | waiting (ws : List WaitableRef)
  /-- Blocked, its wait group won by a signal of thread `u`. -/
  | won (u : ThreadRef) (ws : List WaitableRef)
  /-- Blocked, its nodes torn down; thread `u` is about to make it ready. -/
  | torn (u : ThreadRef)
  /-- Blocked, woken, in the inbox of its core. -/
  | posted
  /-- Terminated. -/
  | dead
  deriving DecidableEq, Repr

/-- What one thread is about to do to another. -/
inductive Claim where
  | makeReady
  | tearDown
  | wakeUp
  deriving DecidableEq, Repr

namespace Phase

/-- The `state` field of a thread in this phase. -/
def state : Phase → ThreadState
  | unborn | pinned _ | postedNew | ready => .ready
  | running => .running
  | waiting _ | won _ _ | torn _ | posted => .blocked
  | dead => .terminated

/-- The waitables it has nodes on. -/
def held : Phase → List WaitableRef
  | waiting ws | won _ ws => ws
  | _ => []

/-- It is in the inbox of its core. -/
def inInbox : Phase → Bool
  | postedNew | posted => true
  | _ => false

/-- It is blocked and no signal has won its group. -/
def isWaiting : Phase → Bool
  | waiting _ => true
  | _ => false

/-- Who is about to do what to it. -/
def claim : Phase → Option (ThreadRef × Claim)
  | pinned u => some (u, .makeReady)
  | won u _ => some (u, .tearDown)
  | torn u => some (u, .wakeUp)
  | _ => none

end Phase

/-! ## Program points by phase -/

namespace ThreadPc

/-- What the thread at this point is about to do to which thread. -/
def claim : ThreadPc → Option (ThreadRef × Claim)
  | register t => some (t, .makeReady)
  | teardown _ tcb _ => some (tcb, .tearDown)
  | setReady _ tcb => some (tcb, .wakeUp)
  | _ => none

/-- The points at which a thread can be off its core. -/
def suspended : ThreadPc → Bool
  | user | idle | waitReturn _ _ | unregister | finished => true
  | _ => false

/-- `thread_launcher` after `entry()` has returned. -/
def exiting : ThreadPc → Bool
  | terminate | unregister | threadExit | finished => true
  | pick s | wake s _ _ | tryWin s _ _ _ _ _ | teardown s _ _ | setReady s _ => s.exiting
  | _ => false

/-- The signal in which a thread is. -/
def signal : ThreadPc → Option SignalCall
  | pick s | wake s _ _ | tryWin s _ _ _ _ _ | teardown s _ _ | setReady s _ => some s
  | _ => none

/-- Blocked on `ws`. -/
def blockedOn (ws : List WaitableRef) : ThreadPc → Bool
  | commence vs _ | waitReturn vs _ => vs = ws
  | _ => false

end ThreadPc

namespace Phase

/-- The points at which a thread in this phase can be. -/
def admits : Phase → ThreadPc → Bool
  | unborn, pc | pinned _, pc | postedNew, pc => pc = .user || pc = .idle
  | ready, pc => pc.suspended && !pc.exiting
  | running, .commence _ _ => false
  | running, pc => !pc.exiting
  | waiting ws, pc | won _ ws, pc => pc.blockedOn ws
  | torn _, pc | posted, pc => match pc with
    | .commence _ _ | .waitReturn _ _ => true
    | _ => false
  | dead, pc => pc.exiting

/-- The phases of the current thread of a core. `ready` is there because
`drain_inbox` may ready the very thread that is being switched out. -/
def onCore : CorePc → Phase → Bool
  | _, running | _, waiting _ | _, won _ _ | _, torn _ | _, posted | _, dead => true
  | .drain, ready | .switch, ready => true
  | _, _ => false

end Phase

/-! ## The abstract state -/

/-- The abstract state of the system. -/
structure Life where
  phase : ThreadRef → Phase
  /-- The ready queues, by core and priority. -/
  queue : Nat × Nat → List ThreadRef
  /-- The wait queues. -/
  waiters : WaitableRef → List NodeRef

namespace Life

/-- Move one thread to another phase. -/
def setPhase (a : Life) (t : ThreadRef) (φ : Phase) : Life :=
  { a with phase := Function.update a.phase t φ }

/-- Append a thread to a ready queue. -/
def enqueue (a : Life) (c p : Nat) (t : ThreadRef) : Life :=
  { a with
    phase := Function.update a.phase t .ready
    queue := Function.update a.queue (c, p) (a.queue (c, p) ++ [t]) }

/-- Dispatch `t`, the head of queue `(c, p)`, whose rest is `rest`. -/
def dequeue (a : Life) (c p : Nat) (t : ThreadRef) (rest : List ThreadRef) : Life :=
  { a with
    phase := Function.update a.phase t .running
    queue := Function.update a.queue (c, p) rest }

/-- Block `t` on `ws`. -/
def block (a : Life) (t : ThreadRef) (ws : List WaitableRef) : Life :=
  { a with
    phase := Function.update a.phase t (.waiting ws)
    waiters := WaitRep.enlist t a.waiters 0 ws }

/-- Thread `u` tears down the wait of `t`. -/
def tearDown (a : Life) (u t : ThreadRef) : Life :=
  { a with
    phase := Function.update a.phase t (.torn u)
    waiters := WaitRep.detach t a.waiters }

end Life

/-! ## The simulation relation -/

/-- The core that `t` is pinned to. -/
def Kernel.pinnedCore (k : Kernel) (t : ThreadRef) : Nat := (k.tcbs t).pinnedCore

/-- Thread `t` is current on its core, and the core is in its fiber. -/
def Machine.Executing (m : Machine) (t : ThreadRef) : Prop :=
  m.core (m.kernel.pinnedCore t) = .thread ∧ m.kernel.current (m.kernel.pinnedCore t) = some t

/-- The data a program point carries is consistent: a picked node belongs to a
wait operation that has begun, `wake_thread` works on the node's own thread and
group, and the sizes of a wait have been checked. -/
def ThreadPc.Consistent (cfg : Config) (waits : ThreadRef → Nat) : ThreadPc → Prop
  | .wake _ n wait => 0 < wait ∧ wait ≤ waits n.owner
  | .tryWin _ n wait tcb group _ =>
    0 < wait ∧ wait ≤ waits n.owner ∧ tcb = n.owner ∧ group = n.owner
  | .teardown _ tcb group => group = tcb
  | .evaluate ws _ | .commence ws _ | .waitReturn ws _ =>
    0 < ws.length ∧ ws.length ≤ cfg.maxWaitNodes
  | _ => True

/-- Thread `t` is in phase `φ`. -/
structure ThreadOk (cfg : Config) (m : Machine) (φ : Phase) (t : ThreadRef) : Prop where
  state : m.kernel.state t = φ.state
  core_lt : φ ≠ .unborn → m.kernel.pinnedCore t < cfg.cores
  priority_lt : m.kernel.priority t < cfg.maxPriorities
  /-- A group that is not won is that of a waiting thread, or was never used. -/
  waiting_done : φ.isWaiting = true → m.kernel.done t = false
  done_waiting : m.kernel.done t = false → φ.isWaiting = true ∨ m.waits t = 0
  waits_pos : φ.state = .blocked → 0 < m.waits t
  waits_unborn : φ = .unborn → m.waits t = 0
  admits : φ.admits (m.fiber t) = true
  consistent : (m.fiber t).Consistent cfg m.waits
  executing : m.Executing t ∨ (m.fiber t).suspended = true
  /-- A blocked thread that still executes is about to leave its core. -/
  blocked : m.Executing t → φ.state = .blocked → (m.fiber t).suspended = false
  running : φ = .running → m.kernel.current (m.kernel.pinnedCore t) = some t
  /-- Only other cores post to an inbox. -/
  inbox_cores : φ.inInbox = true → 1 < cfg.cores
  terminated : (m.kernel.tcbs t).terminated = true ↔ φ = .dead ∧ m.fiber t ≠ .terminate
  idle_fiber : m.fiber t = .idle ↔ t.isIdle = true

/-- A thread is about to act on another exactly when the other's phase says so. -/
def Claims (fiber : ThreadRef → ThreadPc) (phase : ThreadRef → Phase) : Prop :=
  ∀ t u κ, (fiber u).claim = some (t, κ) ↔ (phase t).claim = some (u, κ)

/-- Machine `m` is in abstract state `a`. -/
structure Sim (cfg : Config) (m : Machine) (a : Life) : Prop where
  ready : ReadyRep m.kernel a.queue
  queued : ∀ c p t, t ∈ a.queue (c, p) ↔
    a.phase t = .ready ∧ t.isIdle = false ∧ m.kernel.pinnedCore t = c ∧ m.kernel.priority t = p
  waiting : WaitRep cfg m.kernel (fun t => (a.phase t).held) a.waiters
  thread : ∀ t, ThreadOk cfg m (a.phase t) t
  born : ∀ n, a.phase (.user n) = .unborn ↔ m.kernel.threads ≤ n
  idle : ∀ c, (m.kernel.schedulers c).idleThread = some (.idle c) ∧
    m.kernel.pinnedCore (.idle c) = c ∧
    (a.phase (.idle c) = .unborn ∧ cfg.cores ≤ c ∨
      (a.phase (.idle c) = .ready ∨ a.phase (.idle c) = .running) ∧ c < cfg.cores)
  boot : ∀ c, m.core c = .boot ↔ m.kernel.current c = none
  current : ∀ c t, m.kernel.current c = some t →
    m.kernel.pinnedCore t = c ∧ (a.phase t).onCore (m.core c) = true
  inbox : ∀ c, (m.kernel.schedulers c).inbox.Nodup ∧
    ∀ t, t ∈ (m.kernel.schedulers c).inbox ↔
      (a.phase t).inInbox = true ∧ m.kernel.pinnedCore t = c
  claims : Claims m.fiber a.phase

/-! ## What the relation does not see -/

/-- Two kernel states that differ in counters and spinlocks only. -/
structure Kernel.Same (k k' : Kernel) : Prop where
  isRunning : k'.isRunning = k.isRunning
  tcbs : k'.tcbs = k.tcbs
  ready : k'.ready = k.ready
  waiters : k'.waiters = k.waiters
  threads : k'.threads = k.threads
  currentThread : ∀ c, (k'.schedulers c).currentThread = (k.schedulers c).currentThread
  idleThread : ∀ c, (k'.schedulers c).idleThread = (k.schedulers c).idleThread
  bitmap : ∀ c, (k'.schedulers c).bitmap = (k.schedulers c).bitmap
  inbox : ∀ c, (k'.schedulers c).inbox = (k.schedulers c).inbox

theorem Kernel.Same.refl (k : Kernel) : Kernel.Same k k :=
  ⟨rfl, rfl, rfl, rfl, rfl, fun _ => rfl, fun _ => rfl, fun _ => rfl, fun _ => rfl⟩

/-- The facts about `u` survive a step that leaves `u`'s block, fiber and waits
alone, begins no fewer waits, and does not take `u` off its core. -/
theorem ThreadOk.frame {cfg : Config} {m m' : Machine} {φ : Phase} {u : ThreadRef}
    (h : ThreadOk cfg m φ u) (htcb : m'.kernel.tcbs u = m.kernel.tcbs u)
    (hfiber : m'.fiber u = m.fiber u) (hwaits : m'.waits u = m.waits u)
    (hmono : ∀ v, m.waits v ≤ m'.waits v) (hexec : m.Executing u ↔ m'.Executing u)
    (hcur : φ = .running → m.kernel.current (m.kernel.pinnedCore u) = some u →
      m'.kernel.current (m.kernel.pinnedCore u) = some u) : ThreadOk cfg m' φ u where
  state := by simpa [Kernel.state, htcb] using h.state
  core_lt := by simpa [Kernel.pinnedCore, htcb] using h.core_lt
  priority_lt := by simpa [Kernel.priority, htcb] using h.priority_lt
  waiting_done := by simpa [Kernel.done, htcb] using h.waiting_done
  done_waiting := by simpa [Kernel.done, htcb, hwaits] using h.done_waiting
  waits_pos := by simpa [hwaits] using h.waits_pos
  waits_unborn := by simpa [hwaits] using h.waits_unborn
  admits := by simpa [hfiber] using h.admits
  consistent := by
    have hc := h.consistent
    rw [hfiber]
    cases hpc : m.fiber u with
    | wake s n w =>
      rw [hpc] at hc
      exact ⟨hc.1, Nat.le_trans hc.2 (hmono _)⟩
    | tryWin s n w tcb g i =>
      rw [hpc] at hc
      exact ⟨hc.1, Nat.le_trans hc.2.1 (hmono _), hc.2.2⟩
    | _ =>
      rw [hpc] at hc
      exact hc
  executing := by rw [hfiber, ← hexec]; exact h.executing
  blocked := by rw [hfiber, ← hexec]; exact h.blocked
  running hφ := by
    have := hcur hφ (h.running hφ)
    simpa [Kernel.pinnedCore, htcb] using this
  inbox_cores := h.inbox_cores
  terminated := by simpa [htcb, hfiber] using h.terminated
  idle_fiber := by simpa [hfiber] using h.idle_fiber

/-! ## Claims -/

namespace Claims

variable {fiber : ThreadRef → ThreadPc} {phase : ThreadRef → Phase}

/-- The fiber of `t` and the phase of `x` change together, and no claim of or on
anyone else is involved. -/
theorem update (h : Claims fiber phase) {t x : ThreadRef} {pc : ThreadPc} {φ : Phase}
    (hpc : ∀ y κ, (fiber t).claim = some (y, κ) → y = x)
    (hφ : ∀ u κ, (phase x).claim = some (u, κ) → u = t)
    (hpc' : ∀ y κ, pc.claim = some (y, κ) → y = x ∧ φ.claim = some (t, κ))
    (hφ' : ∀ u κ, φ.claim = some (u, κ) → u = t ∧ pc.claim = some (x, κ)) :
    Claims (Function.update fiber t pc) (Function.update phase x φ) := by
  intro y u κ
  by_cases hu : u = t <;> by_cases hy : y = x
  · subst hu hy
    simp only [Function.update_self]
    exact ⟨fun hc => (hpc' _ _ hc).2, fun hc => (hφ' _ _ hc).2⟩
  · subst hu
    simp only [Function.update_self, Function.update_of_ne hy]
    exact ⟨fun hc => absurd (hpc' _ _ hc).1 hy,
      fun hc => absurd (hpc _ _ ((h y u κ).mpr hc)) hy⟩
  · subst hy
    simp only [Function.update_self, Function.update_of_ne hu]
    exact ⟨fun hc => absurd (hφ _ _ ((h y u κ).mp hc)) hu,
      fun hc => absurd (hφ' _ _ hc).1 hu⟩
  · simp only [Function.update_of_ne hu, Function.update_of_ne hy]
    exact h y u κ

/-- A move between two points with the same claim. -/
theorem update_fiber (h : Claims fiber phase) {t : ThreadRef} {pc : ThreadPc}
    (hpc : pc.claim = (fiber t).claim) : Claims (Function.update fiber t pc) phase := by
  intro y u κ
  by_cases hu : u = t
  · subst hu
    rw [Function.update_self, hpc]
    exact h y u κ
  · rw [Function.update_of_ne hu]
    exact h y u κ

/-- A change between two phases with the same claim. -/
theorem update_phase (h : Claims fiber phase) {x : ThreadRef} {φ : Phase}
    (hφ : φ.claim = (phase x).claim) : Claims fiber (Function.update phase x φ) := by
  intro y u κ
  by_cases hy : y = x
  · subst hy
    rw [Function.update_self, hφ]
    exact h y u κ
  · rw [Function.update_of_ne hy]
    exact h y u κ

end Claims

end Cortos
