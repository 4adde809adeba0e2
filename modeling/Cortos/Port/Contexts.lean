import Cortos.Properties.Termination

/-!
# The port's count of contexts

`cortos_port_context_init` adds one to `active_contexts`, for the idle threads during
`kernel::initialise` and then in the constructor of every `Thread`;
`cortos_port_thread_exit`, the last call of `thread_launcher`, takes one off. So while the
32-bit counter does not wrap it is the number of cores plus the number of threads that have
not exited (`ContextAccounts`).

If that is down to the number of cores, all threads have exited. None of them takes a step
any more and the idle threads construct nothing, so the count stays there (`Quiescent.step`).
-/

namespace Cortos

open Lib

variable {cfg : Config} {m m' : Machine} {a a' : Life} {c : Nat} {t x : ThreadRef}

/-! ## What a step does to the contexts -/

/-- The step constructs a thread. -/
def Label.constructs : Label → Bool
  | .construct _ _ | .core _ (.construct _ _) => true
  | _ => false

/-- No context is initialised once the 32-bit counter is exhausted. -/
def ContextsFit (m : Machine) (l : Label) : Prop :=
  l.constructs = true → m.kernel.activeContexts + 1 < 2 ^ 32

instance (m : Machine) (l : Label) : Decidable (ContextsFit m l) :=
  inferInstanceAs (Decidable (_ → _))

/-- What a step does to the contexts. -/
inductive ContextStep (m : Machine) (l : Label) (m' : Machine) : Prop
  /-- `cortos_port_context_init`, called by `main` or by a thread. -/
  | init (hl : l.constructs = true)
    (hcaller : m.kernel.isRunning = false ∨ ∃ t, m.acting l = some t ∧ m.fiber t = .user)
    (hthreads : m'.kernel.threads = m.kernel.threads + 1)
    (hactive : m'.kernel.activeContexts = u32 (m.kernel.activeContexts + 1))
    (hexits : m'.exits = m.exits)
  /-- `cortos_port_thread_exit`. -/
  | exit {t : ThreadRef} (hact : m.acting l = some t) (hpc : m.fiber t = .threadExit)
    (hpc' : m'.fiber t = .finished)
    (hthreads : m'.kernel.threads = m.kernel.threads)
    (hactive : m'.kernel.activeContexts = m.kernel.activeContexts - 1)
    (hexits : m'.exits = Function.update m.exits t (m.exits t + 1))
  | stay (hthreads : m'.kernel.threads = m.kernel.threads)
    (hactive : m'.kernel.activeContexts = m.kernel.activeContexts) (hexits : m'.exits = m.exits)

theorem LocalStep.contexts {act : Act} {pc : ThreadPc} (hs : LocalStep cfg m a c t act pc m')
    (hact : m.acting (.core c act) = some t) : ContextStep m (.core c act) m' := by
  cases hs with
  | @unlock l k hpc hk =>
    obtain ⟨-, rfl⟩ := Scheduler.enablePreemption_ok.mp hk
    exact .stay rfl rfl rfl
  | pickNone hpc hnone =>
    rw [Machine.signalReturn]
    split <;> exact .stay rfl rfl rfl
  | @lost b s n wait i tcb g hpc hdone =>
    rw [Machine.signalNext, Machine.signalReturn]
    split_ifs <;> exact .stay rfl rfl rfl
  | @waitReturn b ws p hpc => cases p <;> exact .stay rfl rfl rfl
  | spin hpc =>
    rw [Machine.spin]
    split <;> exact .stay rfl rfl rfl
  | threadExit hpc hpos => exact .exit hact hpc (by simp [Machine.pend]) rfl rfl rfl
  | _ => exact .stay rfl rfl rfl

theorem AfterReady.exits {k : Kernel} {resched : Bool} {κ : Claim} {pc : ThreadPc}
    (hafter : AfterReady m c t k resched x κ pc m') : m'.exits = m.exits := by
  cases hafter with
  | register hpc => split <;> rfl
  | setReady hpc hs => exact (m.signalNext_counts ..).2.1

theorem Trans.contexts {l : Label} (ht : Trans cfg m a l m' a') : ContextStep m l m' := by
  cases ht with
  | constructBoot hrun hd hprio => exact .init rfl (.inl hrun) rfl rfl rfl
  | construct hcore hcur hpc hd hprio =>
    exact .init rfl (.inr ⟨_, Machine.acting_core hcore hcur, hpc⟩) rfl rfl rfl
  | thread hcore hcur hs => exact hs.contexts (Machine.acting_core hcore hcur)
  | start | block | ret | terminate | win | tearDown | coreMove | drainOne =>
    exact .stay rfl rfl rfl
  | ready hcore hcur hafter | post hcore hcur hafter =>
    have hf : ReadyFrame cfg _ _ _ _ _ _ _ _ := hafter.frame
    exact .stay (by rw [hf.kernel]; rfl) (by rw [hf.kernel]; rfl) hafter.exits
  | boot hrun hc hcore hpop hsel hsim =>
    have hthreads := congrArg Prod.fst (Kernel.popNext_fields _ hpop).2.1
    have hactive := Kernel.popNext_activeContexts _ hpop
    exact .stay hthreads hactive rfl
  | switch hc hcore hcur hnr hpop hsel hsim =>
    have hthreads := (congrArg Prod.fst (Kernel.popNext_fields _ hpop).2.1).trans
      (m.kernel.rotated_fields _ _).2.1
    have hactive := (Kernel.popNext_activeContexts _ hpop).trans
      (m.kernel.activeContexts_rotated _ _)
    exact .stay hthreads hactive rfl

/-! ## The accounts -/

/-- A thread exits at most once, with the last call of its launcher. -/
def ExitsOnce (m : Machine) : Prop :=
  ∀ t, m.exits t = 0 ∨ m.exits t = 1 ∧ m.fiber t = .finished

/-- Only a thread whose launcher has ended has exited. -/
theorem ExitsOnce.not_exited (h : ExitsOnce m) (hpc : m.fiber t ≠ .finished) : m.exits t = 0 :=
  (h t).resolve_right fun hexit => hpc hexit.2

theorem ExitsOnce.step (h : ExitsOnce m) {l : Label} (ht : Trans cfg m a l m' a')
    (hs : m.step cfg l = .ok m') : ExitsOnce m' := by
  have hkeep : ∀ {t}, m.exits t = 0 ∨ m.exits t = 1 ∧ m.fiber t = .finished →
      m.exits t = 0 ∨ m.exits t = 1 ∧ m'.fiber t = .finished :=
    Or.imp_right fun hexit => ⟨hexit.1, ht.finished hs hexit.2⟩
  intro t
  cases ht.contexts with
  | init hl hcaller hthreads hactive hexits | stay hthreads hactive hexits =>
    rw [hexits]
    exact hkeep (h t)
  | @exit u hact hpc hpc' hthreads hactive hexits =>
    have hzero : m.exits u = 0 := h.not_exited (by rw [hpc]; nofun)
    rw [hexits]
    by_cases htu : t = u
    · rw [htu, Function.update_self, hzero]
      exact .inr ⟨rfl, hpc'⟩
    · rw [Function.update_of_ne htu]
      exact hkeep (h t)

theorem ExitsOnce.reach (h : Reachable cfg m) : ExitsOnce m := by
  refine (Lts.ReachVia.invariant (I := fun m => (∃ a, Sim cfg m a) ∧ ExitsOnce m)
    (fun m hm => ?_) (fun m l m' _ hI hvalid hs => ?_) h).2
  · cases hm
    exact ⟨⟨_, Sim.initial cfg⟩, fun _ => .inl rfl⟩
  · obtain ⟨⟨a, hsim⟩, hexits⟩ := hI
    obtain ⟨a', ht⟩ := hsim.trans hvalid hs
    exact ⟨⟨a', ht.sim hsim⟩, hexits.step ht hs⟩

/-- The count is the number of cores plus the number of threads that have not exited. -/
structure ContextAccounts (cfg : Config) (m : Machine) : Prop where
  exits : ExitsOnce m
  active : m.kernel.activeContexts = cfg.cores +
    ((Finset.range m.kernel.threads).filter fun n => m.exits (.user n) = 0).card

theorem ContextAccounts.initial (cfg : Config) : ContextAccounts cfg (Machine.initial cfg) where
  exits _ := .inl rfl
  active := rfl

/-- **Step lemma**: the accounts stay right while the counter does not wrap. -/
theorem ContextAccounts.step (h : ContextAccounts cfg m) (hsim : Sim cfg m a) {l : Label}
    (ht : Trans cfg m a l m' a') (hs : m.step cfg l = .ok m') (hfit : ContextsFit m l) :
    ContextAccounts cfg m' := by
  refine ⟨h.exits.step ht hs, ?_⟩
  cases ht.contexts with
  | init hl hcaller hthreads hactive hexits =>
    have hnew : m.exits (.user m.kernel.threads) = 0 := h.exits.not_exited fun hfin => by
      obtain ⟨n, hn, heq⟩ := hsim.exiting_user (t := .user m.kernel.threads) (by rw [hfin]; rfl)
      cases heq
      exact absurd hn (Nat.lt_irrefl _)
    rw [hactive, hthreads, hexits, card_uncalled_succ hnew, u32, Nat.mod_eq_of_lt (hfit hl),
      h.active, Nat.add_assoc]
  | @exit t hact hpc hpc' hthreads hactive hexits =>
    obtain ⟨n, hn, rfl⟩ := hsim.exiting_user (t := t) (by rw [hpc]; rfl)
    have hzero : m.exits (.user n) = 0 := h.exits.not_exited (by simp [hpc])
    have hpos : 0 < ((Finset.range m.kernel.threads).filter
        fun i => m.exits (.user i) = 0).card :=
      Finset.card_pos.mpr ⟨n, by simp [hn, hzero]⟩
    rw [hactive, hthreads, hexits, card_uncalled_update hn hzero, h.active]
    omega
  | stay hthreads hactive hexits => rw [hactive, hthreads, hexits, h.active]

/-! ## Quiescence -/

/-- The cores run, and only the idle contexts are counted. -/
def Quiescent (cfg : Config) (m : Machine) : Prop :=
  m.kernel.isRunning = true ∧ m.kernel.activeContexts ≤ cfg.cores

/-- **The count is sound**: when it is down to the idle contexts, all threads have exited. -/
theorem Quiescent.exits (hq : Quiescent cfg m) (h : ContextAccounts cfg m) {n : Nat}
    (hn : n < m.kernel.threads) : m.exits (.user n) = 1 := by
  have hcard : ((Finset.range m.kernel.threads).filter fun i => m.exits (.user i) = 0).card = 0 := by
    have := h.active
    have := hq.2
    omega
  have hnone := Finset.card_eq_zero.mp hcard
  refine ((h.exits (.user n)).resolve_left fun hzero => ?_).1
  have hmem : n ∈ (Finset.range m.kernel.threads).filter fun i => m.exits (.user i) = 0 := by
    simp [hn, hzero]
  rw [hnone] at hmem
  cases hmem

/-- The threads that still take steps are the idle threads. -/
theorem Quiescent.acting (hq : Quiescent cfg m) (h : ContextAccounts cfg m) (hsim : Sim cfg m a)
    {l : Label} (hs : m.step cfg l = .ok m') (hact : m.acting l = some t) :
    m.fiber t = .idle := by
  refine (hsim.thread t).idle_fiber.mpr ?_
  cases t with
  | idle d => rfl
  | user n =>
    exfalso
    obtain ⟨c, -, -, -, hcur⟩ := Machine.acting_some hact
    have hn : n < m.kernel.threads := Nat.lt_of_not_le fun hle =>
      hsim.not_current_of_unborn ((hsim.born n).mpr hle) c hcur
    rcases h.exits (.user n) with hzero | ⟨-, hfin⟩
    · rw [hq.exits h hn] at hzero
      cases hzero
    · exact Machine.not_acting_of_finished hs hfin hact

/-- **Step lemma**: quiescence is stable, and no context is initialised. -/
theorem Quiescent.step (hq : Quiescent cfg m) (h : ContextAccounts cfg m) (hsim : Sim cfg m a)
    {l : Label} (ht : Trans cfg m a l m' a') (hs : m.step cfg l = .ok m') :
    Quiescent cfg m' ∧ m'.kernel.threads = m.kernel.threads := by
  have hrun : m'.kernel.isRunning = true := by
    rcases ht.isRunning with hsame | ⟨-, hrun⟩
    · rw [hsame, hq.1]
    · exact hrun
  cases ht.contexts with
  | init hl hcaller hthreads hactive hexits =>
    rcases hcaller with hstopped | ⟨t, hact, hpc⟩
    · rw [hq.1] at hstopped
      cases hstopped
    · rw [hq.acting h hsim hs hact] at hpc
      cases hpc
  | exit hact hpc hpc' hthreads hactive hexits =>
    rw [hq.acting h hsim hs hact] at hpc
    cases hpc
  | stay hthreads hactive hexits => exact ⟨⟨hrun, hactive ▸ hq.2⟩, hthreads⟩

end Cortos
