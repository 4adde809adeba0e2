import Cortos.Machine.Effects

/-!
# Reading the queues off a state

The properties of the system are stated about what is in memory: the ready queue
of a core and priority, and the wait queue of a waitable, as the list met by
following `next` from `head`. In a reachable state these are the lists of the
abstract state.
-/

namespace Cortos

open Lib

variable {cfg : Config} {m m' : Machine} {a a' : Life} {c : Nat} {t x : ThreadRef}

/-- The ready queue of priority `p` of core `c`. -/
def Kernel.readyQueue (k : Kernel) (c p : Nat) : List ThreadRef :=
  k.ready.walk k.threads (k.ready.head (c, p))

/-- The wait queue of `w`. -/
def Kernel.waitQueue (cfg : Config) (k : Kernel) (w : WaitableRef) : List NodeRef :=
  k.waiters.walk (k.threads * cfg.maxWaitNodes) (k.waiters.head w)

/-- The waiters of `w` that a signal can select: linked, and their group not won. -/
def Kernel.eligibleWaiters (cfg : Config) (k : Kernel) (w : WaitableRef) : List NodeRef :=
  WaitRep.eligible k (k.waitQueue cfg w)

/-- Threads that are registered with the kernel: the idle threads of the cores
and the constructed threads. -/
def Kernel.Registered (cfg : Config) (k : Kernel) : ThreadRef → Prop
  | .idle c => c < cfg.cores
  | .user n => n < k.threads

/-- The states of the runs in which threads are constructed with priorities the
ready matrix has. -/
def Reachable (cfg : Config) : Machine → Prop :=
  (system cfg).ReachVia fun _ l => l.Valid cfg

theorem Reachable.sim (h : Reachable cfg m) : ∃ a, Sim cfg m a :=
  reach_sim (fun _ _ hv => hv) h

/-- In a run under a condition, an invariant of machine and abstract state that
every step meeting the condition keeps holds throughout. -/
theorem reach_invariant {C : Machine → Label → Prop} (hC : ∀ m l, C m l → l.Valid cfg)
    {I : Machine → Life → Prop} (hinit : I (Machine.initial cfg) (Life.initial cfg))
    (hstep : ∀ {m a l m' a'}, Sim cfg m a → I m a → C m l → Trans cfg m a l m' a' → I m' a')
    (h : (system cfg).ReachVia C m) : ∃ a, Sim cfg m a ∧ I m a := by
  refine Lts.ReachVia.invariant (I := fun m => ∃ a, Sim cfg m a ∧ I m a) ?_ ?_ h
  · rintro _ rfl
    exact ⟨_, Sim.initial cfg, hinit⟩
  · rintro m l m' - ⟨a, ha, hI⟩ hc hs
    have hout := Machine.step_outcome ha (hC m l hc)
    rw [show m.step cfg l = .ok m' from hs] at hout
    obtain ⟨a', ht⟩ := hout
    exact ⟨a', ht.sim ha, hstep ha hI hc ht⟩

/-- The same along a run, for an invariant that also speaks about the steps made so
far. -/
theorem run_invariant {C : Machine → Label → Prop} (hC : ∀ m l, C m l → l.Valid cfg) {N : Nat}
    (r : (system cfg).Run N) (hr : ∀ i < N, C (r.state i) (r.label i))
    {I : Nat → Machine → Life → Prop} (hinit : I 0 (Machine.initial cfg) (Life.initial cfg))
    (hstep : ∀ {i a a'}, i < N → Sim cfg (r.state i) a → I i (r.state i) a →
      Trans cfg (r.state i) a (r.label i) (r.state (i + 1)) a' → I (i + 1) (r.state (i + 1)) a') :
    ∀ i ≤ N, ∃ a, Sim cfg (r.state i) a ∧ I i (r.state i) a := by
  intro i
  induction i with
  | zero =>
    intro _
    rw [show r.state 0 = Machine.initial cfg from r.start]
    exact ⟨_, Sim.initial cfg, hinit⟩
  | succ i ih =>
    intro hi
    obtain ⟨a, ha, hI⟩ := ih (Nat.le_of_lt hi)
    have hout := Machine.step_outcome ha (hC _ _ (hr i hi))
    rw [show (r.state i).step cfg (r.label i) = .ok (r.state (i + 1)) from r.next i hi] at hout
    obtain ⟨a', ht⟩ := hout
    exact ⟨a', ht.sim ha, hstep hi ha hI ht⟩

/-- A successful step from a simulated state, as a transition. -/
theorem Sim.trans (h : Sim cfg m a) {l : Label} (hvalid : l.Valid cfg)
    (hs : m.step cfg l = .ok m') : ∃ a', Trans cfg m a l m' a' := by
  have hout := Machine.step_outcome h hvalid
  rwa [hs] at hout

/-- A failed assertion in a step from a simulated state. -/
theorem Sim.mayFail (h : Sim cfg m a) {l : Label} {p : Panic} (hvalid : l.Valid cfg)
    (hs : m.step cfg l = .error (.panic p)) : p.mayFail = true := by
  have hout := Machine.step_outcome h hvalid
  rwa [hs] at hout

namespace Sim

/-- Threads that are not idle and not unborn have been constructed. -/
theorem constructed (h : Sim cfg m a) (hidle : t.isIdle = false) (hborn : a.phase t ≠ .unborn) :
    ∃ i < m.kernel.threads, t = .user i := by
  cases t with
  | idle d => simp [ThreadRef.isIdle] at hidle
  | user i =>
    exact ⟨i, Nat.lt_of_not_le fun hle => hborn ((h.born i).mpr hle), rfl⟩

/-- Only constructed threads are anywhere but at the beginning of their code. -/
theorem constructed_of_pc (h : Sim cfg m a) (huser : m.fiber t ≠ .user)
    (hidle : m.fiber t ≠ .idle) : ∃ i < m.kernel.threads, t = .user i := by
  refine h.constructed ?_ fun hunborn => ?_
  · exact Bool.eq_false_iff.mpr fun hi => hidle ((h.thread t).idle_fiber.mpr hi)
  · have hadm := (h.thread t).admits
    rw [hunborn] at hadm
    simp [Phase.admits, huser, hidle] at hadm

/-- A thread executes on a core of the system. -/
theorem executing_core_lt (h : Sim cfg m a) (hexec : m.Executing t) :
    m.kernel.pinnedCore t < cfg.cores := by
  refine (h.thread t).core_lt fun hunborn => ?_
  have hon := (h.current _ _ hexec.2).2
  rw [hexec.1, hunborn] at hon
  cases hon

/-- On one core at most one thread executes. -/
theorem executing_unique (h : Sim cfg m a) (hone : cfg.cores ≤ 1) (ht : m.Executing t)
    (hx : m.Executing x) : t = x := by
  have htc := h.executing_core_lt ht
  have hxc := h.executing_core_lt hx
  have hcore : m.kernel.pinnedCore t = m.kernel.pinnedCore x := by omega
  have hcur := ht.2
  rw [hcore, hx.2] at hcur
  exact (Option.some.inj hcur).symm

theorem registered_iff (h : Sim cfg m a) : m.kernel.Registered cfg t ↔ a.phase t ≠ .unborn := by
  cases t with
  | idle c =>
    rcases (h.idle c).2.2 with ⟨hp, hc⟩ | ⟨hp | hp, hc⟩ <;> simp [Kernel.Registered, hp, hc]
  | user n => simp [Kernel.Registered, h.born n]

theorem readyQueue_eq (h : Sim cfg m a) (c p : Nat) :
    m.kernel.readyQueue c p = a.queue (c, p) := by
  refine h.ready.links.walk_head ?_
  have hsub : a.queue (c, p) ⊆ (List.range m.kernel.threads).map .user := by
    intro t ht
    obtain ⟨hr, hidle, -, -⟩ := (h.queued c p t).mp ht
    obtain ⟨i, hi, rfl⟩ := h.constructed hidle (by simp [hr])
    exact List.mem_map.mpr ⟨i, List.mem_range.mpr hi, rfl⟩
  calc (a.queue (c, p)).length
      ≤ ((List.range m.kernel.threads).map ThreadRef.user).length :=
        (List.subperm_of_subset (h.ready.links.nodup _) hsub).length_le
    _ = m.kernel.threads := by simp

/-- Only constructed threads hold wait nodes. -/
theorem held_constructed (h : Sim cfg m a) (t : ThreadRef) (ht : (a.phase t).held ≠ []) :
    ∃ i < m.kernel.threads, t = .user i := by
  refine h.constructed (h.not_idle ?_ ?_ ?_) ?_ <;> intro hp <;> simp [hp, Phase.held] at ht

theorem waitQueue_eq (h : Sim cfg m a) (w : WaitableRef) :
    m.kernel.waitQueue cfg w = a.waiters w :=
  h.waiting.links.walk_head (h.waiting.length_le h.held_constructed w)

theorem eligibleWaiters_eq (h : Sim cfg m a) (w : WaitableRef) :
    m.kernel.eligibleWaiters cfg w = WaitRep.eligible m.kernel (a.waiters w) := by
  rw [Kernel.eligibleWaiters, h.waitQueue_eq]

/-- The point of a thread that has nodes queued. -/
theorem waiting_fiber (h : Sim cfg m a) {n : NodeRef} {w : WaitableRef}
    (hn : n ∈ a.waiters w) : ∃ ws p, (m.fiber n.owner = .commence ws p ∨
      m.fiber n.owner = .waitReturn ws p) ∧ ws[n.slot]? = some w := by
  have hheld := (h.waiting.mem w n).mp hn
  have hadm := (h.thread n.owner).admits
  cases hp : a.phase n.owner <;> simp only [hp, Phase.held] at hheld <;>
    first
    | simp at hheld
    | (rename_i ws
       refine ⟨ws, ?_⟩
       cases hpc : m.fiber n.owner <;> simp_all [Phase.admits, ThreadPc.blockedOn])

end Sim

theorem Machine.waitReturn_result (m : Machine) (t : ThreadRef) (ws : List WaitableRef)
    (p : Option Predicate) : (m.waitReturn t ws p).result t =
      { index := (m.kernel.tcbs t).waitGroup.winnerIndex
        acquired := (m.kernel.tcbs t).waitGroup.acquired } := by
  cases p <;> exact Function.update_self ..

/-! ## Concrete runs -/

/-- The assertion that the step labelled `l` fails. -/
def Machine.panics (cfg : Config) (m : Machine) (l : Label) : Option Panic :=
  match m.step cfg l with
  | .error (.panic p) => some p
  | _ => none

/-- The configuration of the single-core tests. -/
def oneCore : Config := defaultConfig 1 Nat.one_pos

/-- Two cores, otherwise the same. -/
def twoCores : Config := defaultConfig 2 Nat.two_pos

/-- Concrete runs start where the machine does. -/
theorem system_init (cfg : Config) : (system cfg).init (Machine.initial cfg) := rfl

/-- Core `c` takes `n` steps inside the kernel or the port. -/
def steps (c n : Nat) : List Label := List.replicate n (.core c (.next false))

/-- A list of labels that runs to a state with `P`, every step meeting `C`. -/
def RunsTo (cfg : Config) (C : Machine → Label → Prop) (P : Machine → Prop)
    [∀ m l, Decidable (C m l)] [DecidablePred P] (ls : List Label) : Prop :=
  (system cfg).runsTo C P (Machine.initial cfg) ls = true

instance (cfg : Config) (C : Machine → Label → Prop) (P : Machine → Prop)
    [∀ m l, Decidable (C m l)] [DecidablePred P] : DecidablePred (RunsTo cfg C P) :=
  fun _ => inferInstanceAs (Decidable (_ = true))

theorem RunsTo.reach {C : Machine → Label → Prop} {P : Machine → Prop}
    [∀ m l, Decidable (C m l)] [DecidablePred P] {ls : List Label} (h : RunsTo cfg C P ls) :
    ∃ m, (system cfg).ReachVia C m ∧ P m :=
  Lts.ReachVia.runsTo (.init rfl) h

/-- `P` holds of the core and the choice, if the step is one of the code that a core
is in, not a call of the application. -/
def Label.OnNext (P : Nat → Bool → Prop) : Label → Prop
  | .core c (.next b) => P c b
  | _ => True

instance (P : Nat → Bool → Prop) [∀ c b, Decidable (P c b)] : DecidablePred (Label.OnNext P)
  | .core c a => match a with
    | .next b => inferInstanceAs (Decidable (P c b))
    | .yield | .construct _ _ | .signalOne _ _ | .signalAll _ _ | .waitForAny _
    | .waitUntil _ _ | .join _ | .lock _ | .tryLock _ | .unlock _ | .ret => isTrue trivial
  | .construct _ _ | .start => isTrue trivial

instance (cfg : Config) : DecidablePred (Label.Valid cfg)
  | .construct priority _ => inferInstanceAs (Decidable (priority.toNat < cfg.maxPriorities))
  | .start => isTrue trivial
  | .core _ a => match a with
    | .construct priority _ => inferInstanceAs (Decidable (priority.toNat < cfg.maxPriorities))
    | .yield | .signalOne _ _ | .signalAll _ _ | .waitForAny _ | .waitUntil _ _ | .join _
    | .lock _ | .tryLock _ | .unlock _ | .ret | .next _ => isTrue trivial

/-! ## Inboxes -/

/-- The inbox of core `d`. -/
def Kernel.inbox (k : Kernel) (d : Nat) : List ThreadRef := (k.schedulers d).inbox

theorem Kernel.inbox_makeReady (k : Kernel) (c d : Nat) (x : ThreadRef) :
    (k.makeReady c x).inbox d = k.inbox d := by
  obtain ⟨bits, hb⟩ := k.makeReady_schedulers c d x
  rw [inbox, hb]
  rfl

theorem Kernel.inbox_constructed (k : Kernel) (priority : UInt8) (affinity : BitVec 32)
    (c d : Nat) : (k.constructed cfg priority affinity c).inbox d = k.inbox d := by
  obtain ⟨n, hn⟩ := k.constructed_schedulers cfg priority affinity c d
  rw [inbox, hn]
  rfl

theorem Kernel.inbox_rotated (k : Kernel) (c d : Nat) (t : ThreadRef) :
    (k.rotated c t).inbox d = k.inbox d := by
  obtain ⟨bits, hb⟩ := (k.rotated_fields c t).2.2.2.2 d
  rw [inbox, hb]
  rfl

theorem Kernel.inbox_dispatch (k : Kernel) (c d : Nat) (t : ThreadRef) :
    (Scheduler.dispatch k c t).inbox d = k.inbox d := by
  by_cases hd : d = c
  · subst hd
    simp [inbox, Scheduler.dispatch, Kernel.setState, Kernel.modifyTcb, Kernel.modifySched]
  · simp [inbox, Scheduler.dispatch, Kernel.setState, Kernel.modifyTcb, Kernel.modifySched, hd]

theorem Kernel.inbox_popNext {k k' : Kernel} {next : ThreadRef}
    (h : Scheduler.popNext k c = .ok (next, k')) (d : Nat) : k'.inbox d = k.inbox d := by
  obtain ⟨links, bits, rfl⟩ := Kernel.popNext_eq k h
  by_cases hd : d = c
  · subst hd
    simp [inbox, Kernel.modifySched]
  · simp [inbox, Kernel.modifySched, hd]

/-- The core to whose inbox the next step of core `c` posts. -/
def Machine.posting (m : Machine) (c : Nat) : Option Nat :=
  match m.core c, m.kernel.current c with
  | .thread, some t =>
    match m.fiber t with
    | .register x | .setReady _ x =>
      if m.kernel.pinnedCore x = c then none else some (m.kernel.pinnedCore x)
    | _ => none
  | _, _ => none

/-- A thread that readies one of another core posts to the inbox of that core. -/
theorem AfterReady.posting {k : Kernel} {resched : Bool} {κ : Claim} {pc : ThreadPc}
    (h : AfterReady m c t k resched x κ pc m') (hcore : m.core c = .thread)
    (hcur : m.kernel.current c = some t) (hpin : m.kernel.pinnedCore x ≠ c) :
    m.posting c = some (m.kernel.pinnedCore x) := by
  cases h with
  | register hpc => simp only [Machine.posting, hcore, hcur, hpc, if_neg hpin]
  | setReady hpc hs => simp only [Machine.posting, hcore, hcur, hpc, if_neg hpin]

/-- What a step does to the inbox of core `d`. -/
inductive InboxMove (m : Machine) (l : Label) (m' : Machine) (d : Nat) : Prop
  | keep (hsame : m'.kernel.inbox d = m.kernel.inbox d)
  | post {c : Nat} {b : Bool} {x : ThreadRef} (hl : l = .core c (.next b))
    (hpost : m.posting c = some d) (hin : m'.kernel.inbox d = m.kernel.inbox d ++ [x])
  | drain {x : ThreadRef} (hcore : m.core d = .drain)
    (hin : m.kernel.inbox d = x :: m'.kernel.inbox d)

theorem Trans.inbox {l : Label} (ht : Trans cfg m a l m' a') (d : Nat) : InboxMove m l m' d := by
  cases ht with
  | constructBoot hrun hd hprio =>
    exact .keep ((Kernel.inbox_makeReady ..).trans (Kernel.inbox_constructed ..))
  | thread hcore hcur hs => exact .keep (hs.frame.kernel.inbox d)
  | construct hcore => exact .keep (Kernel.inbox_constructed ..)
  | start | block | ret | terminate | win | tearDown | coreMove => exact .keep rfl
  | ready hcore hcur hafter hpin =>
    have hf : ReadyFrame cfg _ _ _ _ _ _ _ _ := hafter.frame
    exact .keep (by rw [hf.kernel, Kernel.inbox_makeReady])
  | @post c t x b κ pc m' hcore hcur hafter hpin hroom =>
    have hf : ReadyFrame cfg _ _ _ _ _ _ _ _ := hafter.frame
    by_cases hd : d = m.kernel.pinnedCore x
    · refine .post rfl (hd ▸ hafter.posting hcore hcur hpin) (x := x) ?_
      rw [hf.kernel, hd]
      simp [Kernel.inbox, Kernel.post, Kernel.modifySched]
    · refine .keep ?_
      rw [hf.kernel]
      simp [Kernel.inbox, Kernel.post, Kernel.modifySched, hd]
  | boot hrun hc hcore hpop hsel hsim =>
    exact .keep ((Kernel.inbox_dispatch ..).trans (Kernel.inbox_popNext hpop d))
  | @drainOne c x rest hcore hin =>
    obtain ⟨bits, hb⟩ := m.kernel.drained_schedulers c d x rest
    by_cases hd : d = c
    · subst hd
      refine .drain hcore (x := x) ?_
      simp only [Kernel.inbox, hb, if_true, hin]
    · refine .keep ?_
      simp only [Kernel.inbox, hb, if_neg hd]
  | switch hc hcore hcur hnr hpop hsel hsim =>
    exact .keep ((Kernel.inbox_dispatch ..).trans
      ((Kernel.inbox_popNext hpop d).trans (Kernel.inbox_rotated ..)))

end Cortos
