import Cortos.Lib.RoundRobin
import Cortos.Properties.SignalOrder

/-!
# The turns of yielding threads

One core runs threads whose entry functions yield some times and then return. `reschedule`
puts the outgoing thread at the back of the queue of its priority and takes the head of the
first queue that is not empty, and a thread that has ended is in no queue.

- `Dispatches` runs the core to the end of its pump loop and notes which threads it
  dispatches. Nothing in it depends on a choice.
- A thread's turn is `OnCore`, from its dispatch to its next call. `OnCore.yield` and
  `OnCore.ret` take it off the core, `Selecting.select` dispatches the next thread.
- These are the rules of `ServedByPriority`, so `Selecting.served` follows by induction.
-/

namespace Cortos

open Lib

variable {cfg : Config} {m m' m₁ m₂ : Machine} {a a' : Life} {t x : ThreadRef}
  {left : Nat → Nat} {Q : Nat → List (Nat × Nat)} {N n p i k : Nat}

/-! ## A run of the core -/

/-- What core 0 does next, when thread `i` has `left i` yields left. -/
def Machine.nextAct (m : Machine) (left : Nat → Nat) (b : Bool) : Act :=
  match m.core 0, m.kernel.current 0 with
  | .thread, some (.user i) =>
    if m.fiber (.user i) = .user then if left i = 0 then .ret else .yield else .next b
  | _, _ => .next b

/-- How many yields are left after that step. -/
def Machine.leftAfter (m : Machine) (left : Nat → Nat) : Nat → Nat :=
  match m.core 0, m.kernel.current 0 with
  | .thread, some (.user i) =>
    if m.fiber (.user i) = .user then Function.update left i (left i - 1) else left
  | _, _ => left

/-- The thread that `Scheduler::start` or `Scheduler::reschedule` dispatches in a step. -/
def Machine.dispatched (m m' : Machine) : List ThreadRef :=
  if m.core 0 = .boot ∨ m.core 0 = .switch then (m'.kernel.current 0).toList else []

/-- Core 0 runs until its pump loop ends. Whatever the choices are, it dispatches the
threads `xs`, one after the other, and the state is then `m'`. -/
inductive Dispatches (cfg : Config) :
    Machine → (Nat → Nat) → List ThreadRef → Machine → Prop
  | halted {m : Machine} {left : Nat → Nat} (h : m.core 0 = .halted) : Dispatches cfg m left [] m
  | step {m m₁ m' : Machine} {left : Nat → Nat} {xs : List ThreadRef}
    (hstep : ∀ b, m.step cfg (.core 0 (m.nextAct left b)) = .ok m₁)
    (h : Dispatches cfg m₁ (m.leftAfter left) xs m') :
    Dispatches cfg m left (m.dispatched m₁ ++ xs) m'

/-- Some steps, in which the core dispatches `xs`. -/
def Leads (cfg : Config) (m : Machine) (left : Nat → Nat) (xs : List ThreadRef) (m₁ : Machine)
    (left₁ : Nat → Nat) : Prop :=
  ∀ ys m', Dispatches cfg m₁ left₁ ys m' → Dispatches cfg m left (xs ++ ys) m'

theorem Leads.trans {left₁ left₂ : Nat → Nat} {xs ys : List ThreadRef}
    (h₁ : Leads cfg m left xs m₁ left₁) (h₂ : Leads cfg m₁ left₁ ys m₂ left₂) :
    Leads cfg m left (xs ++ ys) m₂ left₂ := by
  intro zs m' h
  rw [List.append_assoc]
  exact h₁ _ m' (h₂ zs m' h)

/-- A step of the scheduler fiber. -/
theorem Leads.scheduler (hcore : m.core 0 ≠ .thread)
    (hstep : ∀ b, m.step cfg (.core 0 (.next b)) = .ok m₁) :
    Leads cfg m left (m.dispatched m₁) m₁ left := by
  have hact : ∀ b, m.nextAct left b = .next b := fun b => by
    cases hc : m.core 0 <;> simp_all [Machine.nextAct]
  have hleft : m.leftAfter left = left := by
    cases hc : m.core 0 <;> simp_all [Machine.leftAfter]
  intro ys m' h
  refine .step (fun b => by rw [hact, hstep]) ?_
  rwa [hleft]

/-- A step of the scheduler fiber that dispatches `t`. -/
theorem Leads.select (hcore : m.core 0 = .boot ∨ m.core 0 = .switch)
    (hstep : ∀ b, m.step cfg (.core 0 (.next b)) = .ok m₁) (hcur : m₁.kernel.current 0 = some t) :
    Leads cfg m left [t] m₁ left := by
  have h : Leads cfg m left (m.dispatched m₁) m₁ left :=
    Leads.scheduler (by rcases hcore with hc | hc <;> simp [hc]) hstep
  rwa [Machine.dispatched, if_pos hcore, hcur] at h

/-- A step of the scheduler fiber that selects no thread. -/
theorem Leads.move {pc : CorePc} (hcore : m.core 0 = pc) (hboot : pc ≠ .boot)
    (hthread : pc ≠ .thread) (hswitch : pc ≠ .switch)
    (hstep : ∀ b, m.step cfg (.core 0 (.next b)) = .ok m₁) : Leads cfg m left [] m₁ left := by
  have h : Leads cfg m left (m.dispatched m₁) m₁ left := Leads.scheduler (by rwa [hcore]) hstep
  rwa [Machine.dispatched, if_neg (by simp [hcore, hboot, hswitch])] at h

/-- A step of a thread inside the kernel. -/
theorem Leads.kernel (hcore : m.core 0 = .thread) (hcur : m.kernel.current 0 = some t)
    (hpc : m.fiber t ≠ .user) (hstep : ∀ b, m.step cfg (.core 0 (.next b)) = .ok m₁) :
    Leads cfg m left [] m₁ left := by
  have hact : ∀ b, m.nextAct left b = .next b := fun b => by
    cases t <;> simp [Machine.nextAct, hcore, hcur, hpc]
  have hleft : m.leftAfter left = left := by
    cases t <;> simp [Machine.leftAfter, hcore, hcur, hpc]
  have hno : m.dispatched m₁ = [] := by simp [Machine.dispatched, hcore]
  intro ys m' h
  rw [← hno]
  refine .step (fun b => by rw [hact, hstep]) ?_
  rwa [hleft]

/-- The next call of a thread. -/
theorem Leads.call (hcore : m.core 0 = .thread) (hcur : m.kernel.current 0 = some (.user i))
    (hpc : m.fiber (.user i) = .user)
    (hstep : m.step cfg (.core 0 (if left i = 0 then .ret else .yield)) = .ok m₁) :
    Leads cfg m left [] m₁ (Function.update left i (left i - 1)) := by
  have hact : ∀ b, m.nextAct left b = if left i = 0 then .ret else .yield := fun b => by
    simp [Machine.nextAct, hcore, hcur, hpc]
  have hleft : m.leftAfter left = Function.update left i (left i - 1) := by
    simp [Machine.leftAfter, hcore, hcur, hpc]
  have hno : m.dispatched m₁ = [] := by simp [Machine.dispatched, hcore]
  intro ys m' h
  rw [← hno]
  refine .step (fun b => by rw [hact, hstep]) ?_
  rwa [hleft]

/-! ## Between the turns -/

/-- Each of the first `n` threads has ended, or is ready or running, in its entry function. -/
def Alive (fiber : ThreadRef → ThreadPc) (phase : ThreadRef → Phase) (n : Nat) : Prop :=
  ∀ i < n, phase (.user i) = .dead ∨
    (phase (.user i) = .ready ∨ phase (.user i) = .running) ∧ fiber (.user i) = .user

/-- Threads that have not ended stay so when they are readied and dispatched. -/
theorem Alive.update {fiber : ThreadRef → ThreadPc} {phase : ThreadRef → Phase} {φ : Phase}
    (h : Alive fiber phase n) (ht : phase t ≠ .dead) (hφ : φ = .ready ∨ φ = .running) :
    Alive fiber (Function.update phase t φ) n := by
  intro i hi
  by_cases hx : .user i = t
  · rw [hx, Function.update_self]
    rw [← hx] at ht ⊢
    exact .inr ⟨hφ, ((h i hi).resolve_left ht).2⟩
  · rw [Function.update_of_ne hx]
    exact h i hi

/-- All threads that have not ended are ready or running, and none has ever waited. -/
structure Turns (cfg : Config) (m : Machine) (a : Life) : Prop where
  sim : Sim cfg m a
  cores : cfg.cores = 1
  running : m.kernel.isRunning = true
  waiters : ∀ w, a.waiters w = []
  alive : Alive m.fiber a.phase m.kernel.threads
  ids : ∀ i < m.kernel.threads, (m.kernel.tcbs (.user i)).id ≠ idleThreadId

/-- The ready queues hold the jobs `Q`: a job is a thread and the yields that it has left. -/
structure Queues (q : Nat × Nat → List ThreadRef) (Q : Nat → List (Nat × Nat))
    (left : Nat → Nat) : Prop where
  queue : ∀ p, q (0, p) = (Q p).map fun j => .user j.1
  left : ∀ p, ∀ j ∈ Q p, left j.1 = j.2

/-- The turn of thread `i`, which has `k` yields left and priority `p`. -/
structure OnCore (cfg : Config) (m : Machine) (a : Life) (Q : Nat → List (Nat × Nat))
    (left : Nat → Nat) (i k p : Nat) : Prop extends Turns cfg m a where
  core : m.core 0 = .thread
  current : m.kernel.current 0 = some (.user i)
  phase : a.phase (.user i) = .running
  priority : m.kernel.priority (.user i) = p
  queues : Queues a.queue Q left
  left_eq : left i = k

/-- Thread `i` has gone off the core. In the jobs `Q` it is back in its queue, if it has
not ended. -/
structure AtPump (cfg : Config) (m : Machine) (a : Life) (Q : Nat → List (Nat × Nat))
    (left : Nat → Nat) (i : Nat) : Prop extends Turns cfg m a where
  core : m.core 0 = .pump
  current : m.kernel.current 0 = some (.user i)
  queues : Queues (a.rotated 0 (m.kernel.priority (.user i)) (.user i)).queue Q left

/-- The core has not started its first thread. -/
structure AtBoot (cfg : Config) (m : Machine) (a : Life) (Q : Nat → List (Nat × Nat))
    (left : Nat → Nat) : Prop extends Turns cfg m a where
  core : m.core 0 = .boot
  queues : Queues a.queue Q left

/-- `N` threads have been constructed, `n` are registered, and the port counts the contexts
of `x` threads and of the idle thread, in a 32-bit counter. -/
structure Counts (m : Machine) (N n x : Nat) : Prop where
  constructed : m.kernel.threads = N
  threads : m.kernel.activeThreads = n
  contexts : m.kernel.activeContexts = u32 (x + 1)

/-- One queue changes. -/
theorem Queues.update {q : Nat × Nat → List ThreadRef} {left₁ : Nat → Nat}
    (h : Queues q Q left) (l : List (Nat × Nat)) (hleft : ∀ p, ∀ j ∈ Q p, left₁ j.1 = j.2)
    (hl : ∀ j ∈ l, left₁ j.1 = j.2) :
    Queues (Function.update q (0, p) (l.map fun j => .user j.1)) (Function.update Q p l)
      left₁ where
  queue d := by
    by_cases hd : d = p
    · rw [hd, Function.update_self, Function.update_self]
    · rw [Function.update_of_ne (fun h => hd (Prod.mk.inj h).2), Function.update_of_ne hd,
        h.queue]
  left d j hj := by
    by_cases hd : d = p
    · rw [hd, Function.update_self] at hj
      exact hl j hj
    · rw [Function.update_of_ne hd] at hj
      exact hleft d j hj

/-- The thread that `pop_best_thread` returns is the first job. -/
theorem Queues.selects {a : Life} {next : ThreadRef} {q : List (Nat × Nat)}
    (hqueues : Queues a.queue Q left) (hfirst : ∀ p' < p, Q p' = []) (hQ : Q p = (i, k) :: q)
    (hsel : a.Selects 0 next a') : next = .user i ∧
      a' = a.dequeue 0 p (.user i) (q.map fun j => .user j.1) ∧
      Queues a'.queue (Function.update Q p q) left ∧ left i = k := by
  have hp : a.queue (0, p) = .user i :: q.map fun j => .user j.1 := by
    rw [hqueues.queue, hQ]
    rfl
  cases hsel with
  | idle hempty =>
    rw [hempty] at hp
    cases hp
  | @head p' t rest hq hfirst' =>
    obtain rfl : p' = p := by
      rcases Nat.lt_trichotomy p' p with hlt | heq | hgt
      · rw [hqueues.queue, hfirst p' hlt] at hq
        cases hq
      · exact heq
      · rw [hfirst' p hgt] at hp
        cases hp
    rw [hq] at hp
    obtain ⟨rfl, rfl⟩ := List.cons.inj hp
    refine ⟨rfl, rfl, hqueues.update q hqueues.left fun j hj => ?_, ?_⟩
    · exact hqueues.left p' j (hQ ▸ List.mem_cons_of_mem _ hj)
    · exact hqueues.left p' (i, k) (hQ ▸ List.mem_cons_self)

theorem Turns.step (h : Turns cfg m a) (act : Act) :
    m.step cfg (.core 0 act) = m.coreStep cfg 0 act :=
  if_pos ⟨h.running, cfg.cores_pos⟩

/-- The scheduler fiber moves on. -/
theorem Turns.coreMove (h : Turns cfg m a) {pc : CorePc} (hmove : CoreMove cfg m 0 pc) :
    Turns cfg (m.coreGoto m.kernel 0 pc) a where
  sim := (Trans.coreMove (b := true) hmove).sim h.sim
  cores := h.cores
  running := h.running
  waiters := h.waiters
  alive := h.alive
  ids := h.ids

theorem Turns.step_coreMove (h : Turns cfg m a) {pc : CorePc} (hmove : CoreMove cfg m 0 pc)
    (b : Bool) : m.step cfg (.core 0 (.next b)) = .ok (m.coreGoto m.kernel 0 pc) :=
  h.sim.step_coreMove h.cores h.running hmove b

/-- The outgoing thread goes back into its queue. -/
theorem Turns.rotate (h : Turns cfg m a) (hcore : m.core 0 = .switch)
    (hcur : m.kernel.current 0 = some t) :
    Turns cfg { m with kernel := m.kernel.rotated 0 t }
      (a.rotated 0 (m.kernel.priority t) t) := by
  obtain ⟨-, hthreads, hrunning, htcbs, -⟩ := m.kernel.rotated_fields 0 t
  refine ⟨(h.sim.rotate hcore hcur).1, h.cores, hrunning.trans h.running, fun w => ?_, ?_,
    fun j hj => ?_⟩
  · rw [Life.rotated]
    split_ifs <;> exact h.waiters w
  · show Alive m.fiber _ (m.kernel.rotated 0 t).threads
    rw [hthreads, Life.rotated]
    split_ifs with hrun
    · exact h.alive.update (by simp [hrun]) (.inl rfl)
    · exact h.alive.update (by simp [hrun]) (.inl rfl)
    · exact h.alive
  · obtain ⟨st, hst⟩ := htcbs (.user j)
    show ((m.kernel.rotated 0 t).tcbs (.user j)).id ≠ _
    rw [hst]
    exact h.ids j (hthreads ▸ hj)

/-- The first job is dispatched. -/
theorem Turns.dispatch {k₁ k₂ : Kernel} {a₁ : Life} {next : ThreadRef} {q : List (Nat × Nat)}
    (h : Turns cfg { m with kernel := k₁ } a₁) (hqueues : Queues a₁.queue Q left)
    (hfirst : ∀ p' < p, Q p' = []) (hQ : Q p = (i, k) :: q)
    (hpop : Scheduler.popNext k₁ 0 = .ok (next, k₂)) (hsel : a₁.Selects 0 next a')
    (hsim : Sim cfg (m.coreGoto (Scheduler.dispatch k₂ 0 next) 0 .thread) a') :
    next = .user i ∧
      OnCore cfg (m.coreGoto (Scheduler.dispatch k₂ 0 next) 0 .thread) a' (Function.update Q p q)
        left i k p := by
  obtain ⟨htcbs, hcounters, hrunning, -⟩ := k₁.popNext_fields hpop
  have hthreads : (Scheduler.dispatch k₂ 0 next).threads = k₁.threads := congrArg Prod.fst hcounters
  obtain ⟨rfl, rfl, hqueues', hleft⟩ := hqueues.selects hfirst hQ hsel
  obtain ⟨hready, -, -, hprio⟩ := (h.sim.queued 0 p (.user i)).mp
    (by rw [hqueues.queue, hQ]; exact List.mem_cons_self)
  refine ⟨rfl, ⟨hsim, h.cores, hrunning.trans h.running, h.waiters, ?_, fun j hj => ?_⟩,
    by simp [Machine.coreGoto], ?_, by simp [Life.dequeue], ?_, hqueues', hleft⟩
  · show Alive m.fiber _ (Scheduler.dispatch k₂ 0 (.user i)).threads
    rw [hthreads]
    exact h.alive.update (by simp [hready]) (.inr rfl)
  · have hid := congrArg (fun f => f.2.1) (Kernel.fixed_dispatch k₂ 0 (.user i) (.user j))
    refine ne_of_eq_of_ne hid ?_
    simp only [Kernel.fixed, htcbs]
    exact h.ids j (hthreads ▸ hj)
  · exact (Kernel.current_dispatch k₂ 0 0 (.user i)).trans (if_pos rfl)
  · exact (Kernel.priority_selected hpop (.user i)).trans hprio

theorem Counts.selected {k₁ k₂ : Kernel} {next : ThreadRef}
    (h : Counts { m with kernel := k₁ } N n n) (hpop : Scheduler.popNext k₁ 0 = .ok (next, k₂)) :
    Counts (m.coreGoto (Scheduler.dispatch k₂ 0 next) 0 .thread) N n n where
  constructed := (congrArg Prod.fst (k₁.popNext_fields hpop).2.1).trans h.constructed
  threads := (congrArg (fun f => f.2.2) (k₁.popNext_fields hpop).2.1).trans h.threads
  contexts := (k₁.popNext_activeContexts hpop).trans h.contexts

/-- The core starts its first thread. -/
theorem AtBoot.start (h : AtBoot cfg m a Q left) {q : List (Nat × Nat)}
    (hfirst : ∀ p' < p, Q p' = []) (hQ : Q p = (i, k) :: q) (hcounts : Counts m N n n) :
    ∃ m₁ a₁, (∀ b, m.step cfg (.core 0 (.next b)) = .ok m₁) ∧
      OnCore cfg m₁ a₁ (Function.update Q p q) left i k p ∧ Counts m₁ N n n := by
  obtain ⟨next, k₂, a', hstart, hpop, hsel, hsim⟩ := h.sim.startThread cfg.cores_pos h.core
  obtain ⟨rfl, hon⟩ := h.toTurns.dispatch h.queues hfirst hQ hpop hsel hsim
  refine ⟨_, a', fun b => ?_, hon, hcounts.selected hpop⟩
  rw [h.step]
  simp only [Machine.coreStep, h.core, hstart, ok_bind]
  rfl

theorem AtBoot.select (h : AtBoot cfg m a Q left) {q : List (Nat × Nat)}
    (hfirst : ∀ p' < p, Q p' = []) (hQ : Q p = (i, k) :: q) (hcounts : Counts m N n n) :
    ∃ m₁ a₁, Leads cfg m left [.user i] m₁ left ∧
      OnCore cfg m₁ a₁ (Function.update Q p q) left i k p ∧ Counts m₁ N n n := by
  obtain ⟨m₁, a₁, hstep, hon, hcounts₁⟩ := h.start hfirst hQ hcounts
  exact ⟨m₁, a₁, .select (.inl h.core) hstep hon.current, hon, hcounts₁⟩

/-- The pump loop calls `reschedule`, which finds the inbox empty. -/
theorem Turns.reschedule (h : Turns cfg m a) (hcore : m.core 0 = .pump)
    (hlive : cfg.cores < m.kernel.activeContexts) :
    Leads cfg m left [] (m.coreGoto m.kernel 0 .switch) left ∧
      Turns cfg (m.coreGoto m.kernel 0 .switch) a := by
  have hpc : ∀ pc, (m.coreGoto m.kernel 0 pc).core 0 = pc := m.coreGoto_core m.kernel 0
  have hgoto := m.coreGoto_coreGoto m.kernel m.kernel 0
  have hr : Turns cfg (m.coreGoto m.kernel 0 .reschedule) a := h.coreMove (.pump hcore hlive)
  have hd : Turns cfg (m.coreGoto m.kernel 0 .drain) a :=
    hgoto .reschedule .drain ▸ hr.coreMove (.reschedule (hpc _))
  have hs : Turns cfg (m.coreGoto m.kernel 0 .switch) a :=
    hgoto .drain .switch ▸ hd.coreMove (.drained (hpc _))
  have hpump : Leads cfg m left [] (m.coreGoto m.kernel 0 .reschedule) left :=
    .move hcore (by simp) (by simp) (by simp) (h.step_coreMove (.pump hcore hlive))
  have hentry : Leads cfg (m.coreGoto m.kernel 0 .reschedule) left []
      (m.coreGoto m.kernel 0 .drain) left := by
    rw [← hgoto .reschedule .drain]
    exact .move (hpc _) (by simp) (by simp) (by simp) (hr.step_coreMove (.reschedule (hpc _)))
  have hdrain : Leads cfg (m.coreGoto m.kernel 0 .drain) left []
      (m.coreGoto m.kernel 0 .switch) left := by
    rw [← hgoto .drain .switch]
    exact .move (hpc _) (by simp) (by simp) (by simp) (hd.step_coreMove (.drained (hpc _)))
  exact ⟨(hpump.trans hentry).trans hdrain, hs⟩

/-- The pump loop goes around and dispatches the first job. -/
theorem AtPump.select {j : Nat} (h : AtPump cfg m a Q left j) {q : List (Nat × Nat)}
    (hfirst : ∀ p' < p, Q p' = []) (hQ : Q p = (i, k) :: q) (hcounts : Counts m N n n)
    (hlive : 1 < u32 (n + 1)) :
    ∃ m₁ a₁, Leads cfg m left [.user i] m₁ left ∧
      OnCore cfg m₁ a₁ (Function.update Q p q) left i k p ∧ Counts m₁ N n n := by
  obtain ⟨hleads, hturns⟩ : Leads cfg m left [] _ left ∧ _ :=
    h.toTurns.reschedule h.core (by rwa [h.cores, hcounts.contexts])
  have hcore := m.coreGoto_core m.kernel 0 .switch
  have hcur : (m.coreGoto m.kernel 0 .switch).kernel.current 0 = some (.user j) := h.current
  have hnr : a.phase (.user j) ≠ .ready := fun hready => by
    have hon := (h.sim.current 0 _ h.current).2
    rw [hready, h.core] at hon
    cases hon
  obtain ⟨next, k₂, a', hswitch, hpop, hsel, hsim⟩ :=
    hturns.sim.switchThread cfg.cores_pos hcore hcur hnr
  obtain ⟨rfl, hon⟩ := (hturns.rotate hcore hcur).dispatch h.queues hfirst hQ hpop hsel hsim
  refine ⟨_, a', hleads.trans (.select (.inr hcore) (fun b => ?_) hon.current), hon,
    Counts.selected ⟨?_, ?_, ?_⟩ hpop⟩
  · rw [hturns.step]
    simp only [Machine.coreStep, hcore, hswitch, ok_bind]
    rfl
  · exact (congrArg Prod.fst (m.kernel.counters_rotated 0 (.user j))).trans
      hcounts.constructed
  · exact (congrArg (fun f => f.2.2) (m.kernel.counters_rotated 0 (.user j))).trans
      hcounts.threads
  · exact (m.kernel.activeContexts_rotated 0 (.user j)).trans hcounts.contexts

/-- A core that is about to select a thread. -/
inductive Selecting (cfg : Config) (m : Machine) (a : Life) (Q : Nat → List (Nat × Nat))
    (left : Nat → Nat) (n : Nat) : Prop
  | boot (h : AtBoot cfg m a Q left) (hpos : 0 < n) : Selecting cfg m a Q left n
  | pump {j : Nat} (h : AtPump cfg m a Q left j) : Selecting cfg m a Q left n

theorem Selecting.select (h : Selecting cfg m a Q left (n + 1)) {q : List (Nat × Nat)}
    (hfirst : ∀ p' < p, Q p' = []) (hQ : Q p = (i, k) :: q) (hcounts : Counts m N (n + 1) (n + 1))
    (hfit : n + 1 + 1 < 2 ^ 32) :
    ∃ m₁ a₁, Leads cfg m left [.user i] m₁ left ∧
      OnCore cfg m₁ a₁ (Function.update Q p q) left i k p ∧ Counts m₁ N (n + 1) (n + 1) := by
  cases h with
  | boot h hpos => exact h.select hfirst hQ hcounts
  | pump h =>
    refine h.select hfirst hQ hcounts ?_
    rw [u32, Nat.mod_eq_of_lt hfit]
    omega

/-- The pump loop ends when only the idle context is left. -/
theorem Turns.halt (h : Turns cfg m a) (hcore : m.core 0 = .pump)
    (hdone : m.kernel.activeContexts ≤ cfg.cores) :
    Dispatches cfg m left [] (m.coreGoto m.kernel 0 .halted) := by
  have hleads : Leads cfg m left [] (m.coreGoto m.kernel 0 .halted) left :=
    .move hcore (by nofun) (by nofun) (by nofun) (h.step_coreMove (.halt hcore hdone))
  exact hleads [] _ (.halted (m.coreGoto_core m.kernel 0 .halted))

/-! ## A turn that ends with a yield -/

/-- A job that is queued is not the running thread. -/
theorem OnCore.not_queued (h : OnCore cfg m a Q left i k p) {p' : Nat} {j : Nat × Nat}
    (hj : j ∈ Q p') : j.1 ≠ i := by
  rintro rfl
  have hin : .user j.1 ∈ a.queue (0, p') := by
    rw [h.queues.queue]
    exact List.mem_map_of_mem hj
  have hready := ((h.sim.queued 0 p' _).mp hin).1
  rw [h.phase] at hready
  cases hready

/-- The yields that the queued jobs have left stay as they are. -/
theorem OnCore.left_update (h : OnCore cfg m a Q left i k p) (x : Nat) {p' : Nat} {j : Nat × Nat}
    (hj : j ∈ Q p') : Function.update left i x j.1 = j.2 := by
  rw [Function.update_of_ne (h.not_queued hj), h.queues.left p' j hj]

/-- The running thread is in its entry function. -/
theorem OnCore.fiber (h : OnCore cfg m a Q left i k p) : m.fiber (.user i) = .user := by
  have hborn : i < m.kernel.threads := Nat.lt_of_not_le fun hle => by
    have hunborn := (h.sim.born i).mpr hle
    rw [h.phase] at hunborn
    cases hunborn
  rcases h.alive i hborn with hdead | ⟨-, hpc⟩
  · rw [h.phase] at hdead
    cases hdead
  · exact hpc

/-- `this_thread::yield`. -/
theorem OnCore.step_yield (h : OnCore cfg m a Q left i k p) :
    m.step cfg (.core 0 .yield) = .ok (m.pend m.kernel 0 (.user i) .user) := by
  rw [h.step]
  simp only [Machine.coreStep, h.core, h.current, h.fiber]
  rfl

/-- The thread yields and goes to the back of its queue. -/
theorem OnCore.yield (h : OnCore cfg m a Q left i (k + 1) p) (hcounts : Counts m N n n) :
    ∃ m₁ left₁, Leads cfg m left [] m₁ left₁ ∧
      AtPump cfg m₁ a (Function.update Q p (Q p ++ [(i, k)])) left₁ i ∧ Counts m₁ N n n := by
  have hpc := h.fiber
  have hfiber : (m.pend m.kernel 0 (.user i) .user).fiber = m.fiber := by
    rw [← hpc]
    exact Function.update_eq_self ..
  have htrans : Trans cfg m a (.core 0 .yield) (m.pend m.kernel 0 (.user i) .user) a :=
    .thread h.core h.current (.yield hpc)
  refine ⟨m.pend m.kernel 0 (.user i) .user, _, .call h.core h.current hpc ?_, ⟨⟨?_, h.cores,
    h.running, h.waiters, ?_, h.ids⟩, ?_, h.current, ?_⟩, hcounts.constructed, hcounts.threads,
    hcounts.contexts⟩
  · rw [h.left_eq, if_neg (Nat.succ_ne_zero k), h.step_yield]
  · exact htrans.sim h.sim
  · rw [hfiber]
    exact h.alive
  · simp [Machine.pend]
  · show Queues (a.rotated 0 (m.kernel.priority (.user i)) (.user i)).queue _ _
    rw [h.priority, Life.rotated, if_pos h.phase, if_neg (by simp [ThreadRef.isIdle])]
    have hback : a.queue (0, p) ++ [.user i] = (Q p ++ [(i, k)]).map fun j => .user j.1 := by
      rw [List.map_append, h.queues.queue]
      rfl
    show Queues (Function.update a.queue (0, p) (a.queue (0, p) ++ [.user i])) _ _
    rw [hback]
    refine h.queues.update _ (fun p' j hj => h.left_update _ hj) fun j hj => ?_
    rcases List.mem_append.mp hj with hj | hj
    · exact h.left_update _ hj
    · rw [List.mem_singleton.mp hj, Function.update_self, h.left_eq, Nat.add_sub_cancel]

/-! ## The last turn of a thread -/

/-- Thread `i` has ended and is in `thread_launcher`, at `pc`. -/
structure Ending (cfg : Config) (m : Machine) (a : Life) (i : Nat) (pc : ThreadPc) : Prop
    extends Turns cfg m a where
  core : m.core 0 = .thread
  current : m.kernel.current 0 = some (.user i)
  phase : a.phase (.user i) = .dead
  fiber : m.fiber (.user i) = pc

section Ending

variable {pc pc' : ThreadPc}

/-- A step of `thread_launcher` keeps what there is to know about the other threads. -/
theorem Ending.turns (h : Ending cfg m a i pc)
    (ht : ∀ b, Trans cfg m a (.core 0 (.next b)) m' a)
    (hkernel : m'.kernel.isRunning = m.kernel.isRunning ∧ m'.kernel.threads = m.kernel.threads ∧
      ∀ t, (m'.kernel.tcbs t).id = (m.kernel.tcbs t).id)
    (hfiber : m'.fiber = Function.update m.fiber (.user i) pc') : Turns cfg m' a := by
  obtain ⟨hrun, hthreads, hids⟩ := hkernel
  refine ⟨(ht true).sim h.sim, h.cores, hrun.trans h.running, h.waiters, fun j hj => ?_,
    fun j hj => ?_⟩
  · by_cases hji : j = i
    · exact .inl (hji ▸ h.phase)
    · rw [hfiber, Function.update_of_ne (fun he => hji (ThreadRef.user.inj he))]
      exact h.alive j (hthreads ▸ hj)
  · rw [hids]
    exact h.ids j (hthreads ▸ hj)

theorem Ending.leads (h : Ending cfg m a i pc) (hpc : pc ≠ .user)
    (hstep : ∀ b, m.threadNext cfg 0 (.user i) b = .ok m₁) : Leads cfg m left [] m₁ left := by
  have hne : m.fiber (.user i) ≠ .user := by rwa [h.fiber]
  refine .kernel h.core h.current hne fun b => ?_
  rw [Machine.step_threadNext h.running cfg.cores_pos h.core h.current hne, hstep]

/-- `signal_all` of `ThreadTermination::terminate`. -/
def terminationSignal (i : Nat) : SignalCall where
  waitable := .termination (.user i)
  acquired := false
  all := true
  reschedule := false
  exiting := true

/-- The thread is marked Terminated. -/
theorem Ending.terminate (h : Ending cfg m a i .terminate) (hcounts : Counts m N n n) :
    ∃ m₁, Leads cfg m left [] m₁ left ∧ Ending cfg m₁ a i (.pick (terminationSignal i)) ∧
      Counts m₁ N n n := by
  have hflag : (m.kernel.tcbs (.user i)).terminated = false := by
    have hterm := (h.sim.thread (.user i)).terminated
    rw [h.fiber] at hterm
    simpa using hterm
  have htrans : ∀ b, Trans cfg m a (.core 0 (.next b)) _ a := fun b =>
    .terminate h.core h.current h.fiber
  refine ⟨_, h.leads (by nofun) fun b => ?_, ⟨h.turns htrans ⟨rfl, rfl, fun t => ?_⟩ rfl, h.core,
    h.current, h.phase, Machine.goto_fiber ..⟩, hcounts.constructed, hcounts.threads,
    hcounts.contexts⟩
  · simp only [Machine.threadNext, h.fiber, Machine.terminate, hflag]
    rfl
  · by_cases ht : t = .user i
    · subst ht
      simp [Machine.goto, Kernel.modifyTcb]
    · simp [Machine.goto, Kernel.modifyTcb, ht]

/-- Nobody has joined the thread. -/
theorem Ending.signal (h : Ending cfg m a i (.pick (terminationSignal i)))
    (hcounts : Counts m N n n) :
    ∃ m₁, Leads cfg m left [] m₁ left ∧ Ending cfg m₁ a i .unregister ∧ Counts m₁ N n n := by
  have hnone : WaitRep.eligible m.kernel (a.waiters (terminationSignal i).waitable) = [] := by
    rw [h.waiters]
    rfl
  have htrans : ∀ b, Trans cfg m a (.core 0 (.next b)) _ a := fun b =>
    .thread h.core h.current (.pickNone h.fiber hnone)
  refine ⟨_, h.leads (by nofun) fun b => ?_, ⟨h.turns htrans ⟨rfl, rfl, fun _ => rfl⟩ rfl, h.core,
    h.current, h.phase, Machine.goto_fiber ..⟩, hcounts.constructed, hcounts.threads,
    hcounts.contexts⟩
  simp only [Machine.threadNext, h.fiber, Machine.pick,
    h.sim.waiting.pickBest h.sim.held_constructed, hnone]
  rfl

/-- `unregister_thread`. -/
theorem Ending.unregister (h : Ending cfg m a i .unregister) (hcounts : Counts m N (n + 1) (n + 1)) :
    ∃ m₁, Leads cfg m left [] m₁ left ∧ Ending cfg m₁ a i .threadExit ∧
      Counts m₁ N n (n + 1) := by
  have hborn : i < m.kernel.threads := Nat.lt_of_not_le fun hle => by
    have hunborn := (h.sim.born i).mpr hle
    rw [h.phase] at hunborn
    cases hunborn
  have hid := h.ids i hborn
  have hpos : m.kernel.activeThreads ≠ 0 := by
    rw [hcounts.threads]
    exact Nat.succ_ne_zero n
  have htrans : ∀ b, Trans cfg m a (.core 0 (.next b)) _ a := fun b =>
    .thread h.core h.current (.unregister h.fiber hid hpos)
  refine ⟨_, h.leads (by nofun) fun b => ?_, ⟨h.turns htrans ⟨rfl, rfl, fun _ => rfl⟩ rfl, h.core,
    h.current, h.phase, by simp [Machine.goto]⟩, hcounts.constructed, ?_, hcounts.contexts⟩
  · simp only [Machine.threadNext, h.fiber, Machine.unregister, if_neg hid,
      Kernel.unregisterThread, bne_iff_ne.mpr hpos]
    rfl
  · show m.kernel.activeThreads - 1 = n
    rw [hcounts.threads, Nat.add_sub_cancel]

/-- `cortos_port_thread_exit`, the last call of the thread. -/
theorem Ending.exit (h : Ending cfg m a i .threadExit) (hcounts : Counts m N n (n + 1))
    (hfit : n + 1 + 1 < 2 ^ 32) (hqueues : Queues a.queue Q left) :
    ∃ m₁, Leads cfg m left [] m₁ left ∧ AtPump cfg m₁ a Q left i ∧ Counts m₁ N n n := by
  have hpos : m.kernel.activeContexts ≠ 0 := by
    rw [hcounts.contexts, u32, Nat.mod_eq_of_lt hfit]
    exact Nat.succ_ne_zero _
  have htrans : ∀ b, Trans cfg m a (.core 0 (.next b)) _ a := fun b =>
    .thread h.core h.current (.threadExit h.fiber hpos)
  refine ⟨_, h.leads (by nofun) fun b => ?_, ⟨h.turns htrans ⟨rfl, rfl, fun _ => rfl⟩ rfl, ?_,
    h.current, ?_⟩, hcounts.constructed, hcounts.threads, ?_⟩
  · simp only [Machine.threadNext, h.fiber, Machine.threadExit, Kernel.threadExit,
      bne_iff_ne.mpr hpos]
    rfl
  · simp [Machine.pend]
  · rwa [Life.rotated, if_neg (by simp [h.phase])]
  · show m.kernel.activeContexts - 1 = _
    rw [hcounts.contexts, u32, u32, Nat.mod_eq_of_lt hfit, Nat.mod_eq_of_lt (by omega),
      Nat.add_sub_cancel]

end Ending

/-- The entry function returns. -/
theorem OnCore.returns (h : OnCore cfg m a Q left i 0 p) (hcounts : Counts m N n n) :
    ∃ m₁ a₁ left₁, Leads cfg m left [] m₁ left₁ ∧ Ending cfg m₁ a₁ i .terminate ∧
      Queues a₁.queue Q left₁ ∧ Counts m₁ N n n := by
  have hpc := h.fiber
  refine ⟨m.goto (m.kernel.setState (.user i) .terminated) (.user i) .terminate,
    a.setPhase (.user i) .dead, _, .call h.core h.current hpc ?_, ⟨⟨?_, h.cores, h.running,
    h.waiters, fun j hj => ?_, fun j hj => ?_⟩, h.core, h.current, ?_, Machine.goto_fiber ..⟩,
    ⟨h.queues.queue, fun p' j hj => h.left_update _ hj⟩, hcounts.constructed, hcounts.threads,
    hcounts.contexts⟩
  · rw [h.left_eq, if_pos rfl, h.step]
    simp only [Machine.coreStep, h.core, h.current, hpc]
    rfl
  · exact (Trans.ret h.core h.current hpc).sim h.sim
  · by_cases hji : j = i
    · exact .inl (by simp [Life.setPhase, hji])
    · have hne : ThreadRef.user j ≠ .user i := fun he => hji (ThreadRef.user.inj he)
      simp only [Life.setPhase, Machine.goto, Function.update_of_ne hne]
      exact h.alive j hj
  · have hid := congrArg (fun f => f.2.1) (Kernel.fixed_update (t := .user j)
      (rfl : (m.kernel.setState (.user i) .terminated).tcbs = _) rfl)
    exact ne_of_eq_of_ne hid (h.ids j hj)
  · simp [Life.setPhase]

/-- The entry function returns and the thread goes through `thread_launcher`. -/
theorem OnCore.ret (h : OnCore cfg m a Q left i 0 p) (hcounts : Counts m N (n + 1) (n + 1))
    (hfit : n + 1 + 1 < 2 ^ 32) :
    ∃ m₁ a₁ left₁, Leads cfg m left [] m₁ left₁ ∧ AtPump cfg m₁ a₁ Q left₁ i ∧ Counts m₁ N n n := by
  obtain ⟨m₁, a₁, left₁, hl₁, hend₁, hqueues, hcounts₁⟩ := h.returns hcounts
  obtain ⟨m₂, hl₂, hend₂, hcounts₂⟩ := hend₁.terminate hcounts₁
  obtain ⟨m₃, hl₃, hend₃, hcounts₃⟩ := hend₂.signal hcounts₂
  obtain ⟨m₄, hl₄, hend₄, hcounts₄⟩ := hend₃.unregister hcounts₃
  obtain ⟨m₅, hl₅, hpump, hcounts₅⟩ := hend₄.exit hcounts₄ hfit hqueues
  exact ⟨m₅, a₁, left₁, (((hl₁.trans hl₂).trans hl₃).trans hl₄).trans hl₅, hpump, hcounts₅⟩

/-! ## The whole run -/

/-- The pump loop has ended, all threads are Terminated, none is registered and the ready
matrix is empty. -/
structure AllDone (m : Machine) (N : Nat) : Prop where
  halted : m.core 0 = .halted
  terminated : ∀ i < N, m.kernel.state (.user i) = .terminated
  activeThreads : m.kernel.activeThreads = 0
  matrix : (m.kernel.schedulers 0).bitmap = 0#32 ∧ ∀ p, m.kernel.readyQueue 0 p = []

/-- With no jobs left the outgoing thread has ended and the queues are empty. -/
theorem AtPump.drained {j : Nat} (h : AtPump cfg m a Q left j) (hQ : ∀ p, Q p = []) :
    a.phase (.user j) ≠ .running ∧ ∀ p, a.queue (0, p) = [] := by
  have hempty : ∀ p, (a.rotated 0 (m.kernel.priority (.user j)) (.user j)).queue (0, p) = [] :=
    fun p => by
      rw [h.queues.queue, hQ]
      rfl
  have hrun : a.phase (.user j) ≠ .running := fun hrun => by
    have hback := hempty (m.kernel.priority (.user j))
    rw [Life.rotated, if_pos hrun, if_neg (by simp [ThreadRef.isIdle])] at hback
    simp [Life.enqueue] at hback
  rw [Life.rotated, if_neg hrun] at hempty
  exact ⟨hrun, hempty⟩

/-- With no jobs left all threads have ended. -/
theorem AtPump.dead {j : Nat} (h : AtPump cfg m a Q left j) (hQ : ∀ p, Q p = [])
    (hi : i < m.kernel.threads) : a.phase (.user i) = .dead := by
  obtain ⟨hrun, hempty⟩ := h.drained hQ
  have hcore : m.kernel.pinnedCore (.user i) = 0 := by
    have hlt := (h.sim.thread (.user i)).core_lt fun hunborn => by
      exact absurd ((h.sim.born i).mp hunborn) (Nat.not_le_of_lt hi)
    have := h.cores
    omega
  rcases h.alive i hi with hdead | ⟨hready | hrunning, -⟩
  · exact hdead
  · have hin := (h.sim.queued 0 (m.kernel.priority (.user i)) (.user i)).mpr
      ⟨hready, rfl, hcore, rfl⟩
    rw [hempty] at hin
    cases hin
  · have hcur := (h.sim.thread (.user i)).running hrunning
    rw [hcore, h.current] at hcur
    cases hcur
    exact absurd hrunning hrun

/-- With no jobs left the pump loop ends. -/
theorem AtPump.done {j : Nat} (h : AtPump cfg m a Q left j) (hQ : ∀ p, Q p = [])
    (hcounts : Counts m N 0 0) : ∃ m', Dispatches cfg m left [] m' ∧ AllDone m' N := by
  obtain ⟨-, hempty⟩ := h.drained hQ
  have hdone : m.kernel.activeContexts ≤ cfg.cores := by
    rw [hcounts.contexts, h.cores]
    decide
  refine ⟨_, h.halt h.core hdone, m.coreGoto_core m.kernel 0 .halted, fun i hi => ?_,
    hcounts.threads, ?_, fun p => (h.sim.readyQueue_eq 0 p).trans (hempty p)⟩
  · refine (h.sim.thread (.user i)).state.trans ?_
    rw [h.dead hQ (hcounts.constructed ▸ hi)]
    rfl
  · refine BitVec.eq_of_getLsbD_eq fun p _ => ?_
    refine (h.sim.ready.bitmap 0 p).trans ?_
    rw [hempty]
    simp

/-- **Jobs are dispatched round robin within their priorities**: the core follows the
rules of `ServedByPriority`. -/
theorem Selecting.served {xs : List Nat} (hserved : ServedByPriority Q n xs)
    (hfit : n + 1 < 2 ^ 32) :
    ∀ {m : Machine} {a : Life} {left : Nat → Nat}, Selecting cfg m a Q left n → Counts m N n n →
      ∃ m', Dispatches cfg m left (xs.map .user) m' ∧ AllDone m' N := by
  induction hserved with
  | done hQ =>
    intro m a left h hcounts
    cases h with
    | boot h hpos => exact absurd hpos (Nat.lt_irrefl 0)
    | pump h => exact h.done hQ hcounts
  | @last Q p n x q xs hfirst hQ _ ih =>
    intro m a left h hcounts
    obtain ⟨m₁, a₁, hsel, hon, hcounts₁⟩ := h.select hfirst hQ hcounts hfit
    obtain ⟨m₂, a₂, left₂, hret, hpump, hcounts₂⟩ := hon.ret hcounts₁ hfit
    obtain ⟨m', hrest, hdone⟩ := ih (by omega) (.pump hpump) hcounts₂
    exact ⟨m', hsel _ _ (hret _ _ hrest), hdone⟩
  | @again Q p n k x q xs hfirst hQ _ ih =>
    intro m a left h hcounts
    obtain ⟨m₁, a₁, hsel, hon, hcounts₁⟩ := h.select hfirst hQ hcounts hfit
    obtain ⟨m₂, left₂, hyield, hpump, hcounts₂⟩ := hon.yield hcounts₁
    rw [Function.update_self, Function.update_idem] at hpump
    obtain ⟨m', hrest, hdone⟩ := ih hfit (.pump hpump) hcounts₂
    exact ⟨m', hsel _ _ (hyield _ _ hrest), hdone⟩

end Cortos
