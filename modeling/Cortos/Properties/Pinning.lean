import Cortos.Machine.Effects
import Cortos.Machine.Observation

/-!
# Load-balanced pinning (`kernel.cpp:120–143`)

`pin_thread_to_core` compares the cores by `pinned_thread_count`. `pin_thread` counts a thread
on its core, and nothing ever takes it off again: a thread that has terminated weighs on its
core like one that runs.

- `FirstLeast`: the specification of the choice, the lowest index of least load among those
  allowed; `Kernel.construct_firstLeast`: the loop computes it for the counters.
- `PinStep`: what a step does to the counters and to the number of threads.
- `PinAccounts`: a counter is the number of threads that were ever pinned to its core.
- `counter_is_live_iff`: it is the number of live threads exactly if none of them has
  terminated, and under that condition a new thread is pinned to the first core with the
  fewest live threads among those its affinity allows.
-/

namespace Cortos

open Lib

variable {cfg : Config} {m m' : Machine} {a a' : Life} {c d : Nat} {t x : ThreadRef}

/-! ## The choice -/

/-- `e` is the first index below `n` of least load among those allowed. -/
structure FirstLeast (p : Nat → Bool) (load : Nat → Nat) (n e : Nat) : Prop where
  lt : e < n
  allowed : p e = true
  least : ∀ c < n, p c = true → load e ≤ load c
  first : ∀ c < e, p c = true → load e < load c

namespace FirstLeast

variable {p : Nat → Bool} {load load' : Nat → Nat} {n e : Nat}

/-- The next index does not beat the best one. -/
theorem keep (h : FirstLeast p load n e) (hn : p n = true → load e ≤ load n) :
    FirstLeast p load (n + 1) e where
  lt := Nat.lt_succ_of_lt h.lt
  allowed := h.allowed
  least c hc hall := by
    rcases Nat.lt_succ_iff_lt_or_eq.mp hc with hc | rfl
    · exact h.least c hc hall
    · exact hn hall
  first := h.first

/-- The next index beats all before it. -/
theorem replace (hall : p n = true) (hn : ∀ c < n, p c = true → load n < load c) :
    FirstLeast p load (n + 1) n where
  lt := Nat.lt_succ_self n
  allowed := hall
  least c hc hallc := by
    rcases Nat.lt_succ_iff_lt_or_eq.mp hc with hc | rfl
    · exact Nat.le_of_lt (hn c hc hallc)
    · exact Nat.le_refl _
  first := hn

theorem congr (h : FirstLeast p load n e)
    (hload : ∀ c < n, p c = true → load' c = load c) : FirstLeast p load' n e where
  lt := h.lt
  allowed := h.allowed
  least c hc hall := by
    rw [hload c hc hall, hload e h.lt h.allowed]
    exact h.least c hc hall
  first c hc hall := by
    rw [hload c (Nat.lt_trans hc h.lt) hall, hload e h.lt h.allowed]
    exact h.first c hc hall

end FirstLeast

namespace Kernel

/-- `Scheduler::pinned_thread_count`. -/
def pinnedThreadCount (k : Kernel) (c : Nat) : Nat := (k.schedulers c).pinnedThreadCounter

/-- What the loop of `pin_thread_to_core` knows after the cores below `n`. -/
theorem pinCandidate_run (k : Kernel) (affinity : BitVec 32) (n : Nat) :
    let best := (List.range n).foldl (k.pinCandidate affinity) (none, 2 ^ 32 - 1)
    (best = (none, 2 ^ 32 - 1) ∧
      ∀ c < n, allows affinity c = true → 2 ^ 32 - 1 ≤ k.pinnedThreadCount c) ∨
    ∃ e, best = (some e, k.pinnedThreadCount e) ∧
      k.pinnedThreadCount e < 2 ^ 32 - 1 ∧ FirstLeast (allows affinity) k.pinnedThreadCount n e := by
  induction n with
  | zero => exact .inl ⟨rfl, nofun⟩
  | succ n ih =>
    dsimp only at ih ⊢
    rw [List.range_succ, List.foldl_append, List.foldl_cons, List.foldl_nil]
    rcases ih with ⟨hbest, hnone⟩ | ⟨e, hbest, hlt, hleast⟩
    · rw [hbest, pinCandidate]
      split
      · next hcond =>
        obtain ⟨hall, hload⟩ := Bool.and_eq_true_iff.mp hcond
        have hload := of_decide_eq_true hload
        refine .inr ⟨n, rfl, hload, .replace hall fun c hc hallc => ?_⟩
        exact Nat.lt_of_lt_of_le hload (hnone c hc hallc)
      · next hcond =>
        refine .inl ⟨rfl, fun c hc hall => ?_⟩
        rcases Nat.lt_succ_iff_lt_or_eq.mp hc with hc | rfl
        · exact hnone c hc hall
        · simp only [hall, Bool.true_and, decide_eq_true_eq] at hcond
          exact Nat.le_of_not_lt hcond
    · rw [hbest, pinCandidate]
      split
      · next hcond =>
        obtain ⟨hall, hload⟩ := Bool.and_eq_true_iff.mp hcond
        have hload : k.pinnedThreadCount n < k.pinnedThreadCount e := of_decide_eq_true hload
        refine .inr ⟨n, rfl, Nat.lt_trans hload hlt, .replace hall fun c hc hallc => ?_⟩
        exact Nat.lt_of_lt_of_le hload (hleast.least c hc hallc)
      · next hcond =>
        refine .inr ⟨e, rfl, hlt, hleast.keep fun hall => ?_⟩
        simp only [hall, Bool.true_and, decide_eq_true_eq] at hcond
        exact Nat.le_of_not_lt hcond

/-- **The choice of the core**: unless the counters of all allowed cores have reached the
largest value, the constructor pins the thread to the first allowed core whose counter is
least. -/
theorem construct_firstLeast (k : Kernel) (cfg : Config) (priority : UInt8) {affinity : BitVec 32}
    (hallowed : ∃ c < cfg.cores, allows affinity c = true ∧ k.pinnedThreadCount c < 2 ^ 32 - 1) :
    ∃ e, k.construct cfg priority affinity = .ok (k.constructed cfg priority affinity e) ∧
      FirstLeast (allows affinity) k.pinnedThreadCount cfg.cores e := by
  have hmask : ((k.addThread cfg priority affinity).tcbs (.user k.threads)).affinity =
      affinity := by
    simp [addThread, newTcb]
  rw [construct, pinThreadToCore, hmask]
  rcases (k.addThread cfg priority affinity).pinCandidate_run affinity cfg.cores with
    ⟨-, hnone⟩ | ⟨e, hbest, -, hleast⟩
  · obtain ⟨c, hc, hall, hlt⟩ := hallowed
    exact absurd (hnone c hc hall) (Nat.not_le_of_lt hlt)
  · exact ⟨e, by rw [hbest]; rfl, hleast⟩

/-! ## What keeps the counters -/

variable (k : Kernel)

theorem pinnedThreadCount_modifySched (c d : Nat) {f : Scheduler → Scheduler}
    (hf : ∀ s, (f s).pinnedThreadCounter = s.pinnedThreadCounter) :
    (k.modifySched c f).pinnedThreadCount d = k.pinnedThreadCount d := by
  unfold pinnedThreadCount modifySched
  by_cases hd : d = c
  · subst hd
    simp only [Function.update_self, hf]
  · simp only [Function.update_of_ne hd]

theorem pinnedThreadCount_makeReady (c d : Nat) (x : ThreadRef) :
    (k.makeReady c x).pinnedThreadCount d = k.pinnedThreadCount d := by
  obtain ⟨bits, hb⟩ := k.makeReady_schedulers c d x
  rw [pinnedThreadCount, hb]
  rfl

theorem pinnedThreadCount_rotated (c d : Nat) (t : ThreadRef) :
    (k.rotated c t).pinnedThreadCount d = k.pinnedThreadCount d := by
  unfold rotated
  split
  · split
    · rfl
    · exact k.pinnedThreadCount_makeReady c d t
  · rfl

theorem pinnedThreadCount_popNext {k' : Kernel} {next : ThreadRef}
    (h : Scheduler.popNext k c = .ok (next, k')) (d : Nat) :
    (Scheduler.dispatch k' c next).pinnedThreadCount d = k.pinnedThreadCount d := by
  obtain ⟨links, bits, rfl⟩ := k.popNext_eq h
  have hdispatch : ∀ k' : Kernel, (Scheduler.dispatch k' c next).pinnedThreadCount d =
      k'.pinnedThreadCount d := by
    intro k'
    refine pinnedThreadCount_modifySched (k'.setState next .running) c d ?_
    exact fun _ => rfl
  rw [hdispatch]
  exact k.pinnedThreadCount_modifySched c d (f := fun s => { s with bitmap := bits }) fun _ => rfl

theorem pinnedThreadCount_constructed (cfg : Config) (priority : UInt8) (affinity : BitVec 32)
    (e d : Nat) : (k.constructed cfg priority affinity e).pinnedThreadCount d =
      if d = e then u32 (k.pinnedThreadCount d + 1) else k.pinnedThreadCount d := by
  unfold pinnedThreadCount constructed Scheduler.pinThread modifySched
  by_cases hd : d = e
  · subst hd
    simp only [Function.update_self, if_true]
    rfl
  · simp only [Function.update_of_ne hd, if_neg hd]
    rfl

end Kernel

/-- What a step does to the counters. -/
inductive PinStep (m m' : Machine) : Prop
  /-- A thread is constructed and pinned to core `e`. -/
  | pin {e : Nat} (hthreads : m'.kernel.threads = m.kernel.threads + 1)
    (hcore : m'.kernel.pinnedCore (.user m.kernel.threads) = e)
    (hcount : ∀ d, m'.kernel.pinnedThreadCount d =
      if d = e then u32 (m.kernel.pinnedThreadCount d + 1) else m.kernel.pinnedThreadCount d)
  | stay (hthreads : m'.kernel.threads = m.kernel.threads)
    (hcount : ∀ d, m'.kernel.pinnedThreadCount d = m.kernel.pinnedThreadCount d)

theorem LocalStep.pins {act : Act} {pc : ThreadPc} (hs : LocalStep cfg m a c t act pc m') :
    PinStep m m' := by
  refine .stay hs.frame.kernel.threads fun d => ?_
  cases hs with
  | lock hpc =>
    show (Scheduler.disablePreemption m.kernel c).pinnedThreadCount d = _
    unfold Scheduler.disablePreemption
    refine m.kernel.pinnedThreadCount_modifySched c d ?_
    exact fun _ => rfl
  | unlock hpc hk =>
    obtain ⟨-, rfl⟩ := Scheduler.enablePreemption_ok.mp hk
    exact Kernel.pinnedThreadCount_modifySched { m.kernel with spinlocks := _ } c d
      (f := fun s => { s with preemptDisableDepth := s.preemptDisableDepth - 1 }) fun _ => rfl
  | pickNone hpc hnone =>
    rw [Machine.signalReturn]
    split <;> rfl
  | lost hpc hdone =>
    rw [Machine.signalNext, Machine.signalReturn]
    split_ifs <;> rfl
  | @waitReturn b ws p hpc => cases p <;> rfl
  | spin hpc =>
    rw [Machine.spin]
    split <;> rfl
  | _ => rfl

theorem Trans.pins {l : Label} (ht : Trans cfg m a l m' a') : PinStep m m' := by
  have hcore : ∀ priority affinity e,
      (m.kernel.constructed cfg priority affinity e).pinnedCore (.user m.kernel.threads) = e :=
    fun priority affinity e => by
      rw [Kernel.pinnedCore, Kernel.constructed_tcbs, Function.update_self]
  cases ht with
  | @constructBoot priority affinity e hrun hd hprio =>
    refine .pin (e := e) rfl ?_ fun d => ?_
    · exact (congrArg (fun f => f.2.2) (Kernel.fixed_makeReady ..)).trans (hcore priority affinity e)
    · exact (Kernel.pinnedThreadCount_makeReady _ _ d _).trans
        (m.kernel.pinnedThreadCount_constructed cfg priority affinity e d)
  | @construct c t priority affinity e hcore' hcur hpc hd hprio =>
    exact .pin rfl (hcore priority affinity e)
      (m.kernel.pinnedThreadCount_constructed cfg priority affinity e)
  | thread hcore' hcur hs => exact hs.pins
  | start | block | ret | terminate | win | tearDown | coreMove => exact .stay rfl fun _ => rfl
  | ready hcore' hcur hafter =>
    have hf : ReadyFrame cfg _ _ _ _ _ _ _ _ := hafter.frame
    refine .stay (by rw [hf.kernel]; rfl) fun d => ?_
    rw [hf.kernel]
    exact m.kernel.pinnedThreadCount_makeReady _ d _
  | post hcore' hcur hafter =>
    have hf : ReadyFrame cfg _ _ _ _ _ _ _ _ := hafter.frame
    refine .stay (by rw [hf.kernel]; rfl) fun d => ?_
    rw [hf.kernel]
    refine m.kernel.pinnedThreadCount_modifySched _ d ?_
    exact fun _ => rfl
  | drainOne hcore' hin =>
    refine .stay rfl fun d => ?_
    refine (Kernel.pinnedThreadCount_makeReady _ _ d _).trans ?_
    refine m.kernel.pinnedThreadCount_modifySched _ d ?_
    exact fun _ => rfl
  | boot hrun hc hcore' hpop hsel hsim =>
    exact .stay (congrArg Prod.fst (Kernel.popNext_fields _ hpop).2.1)
      (m.kernel.pinnedThreadCount_popNext hpop)
  | switch hc hcore' hcur hnr hpop hsel hsim =>
    refine .stay ?_ fun d => ?_
    · exact (congrArg Prod.fst (Kernel.popNext_fields _ hpop).2.1).trans
        (m.kernel.rotated_fields _ _).2.1
    · exact (Kernel.pinnedThreadCount_popNext _ hpop d).trans
        (m.kernel.pinnedThreadCount_rotated _ d _)

/-! ## The accounts -/

/-- The number of threads that were ever pinned to core `c`. -/
def Kernel.everPinned (k : Kernel) (c : Nat) : Nat :=
  (List.range k.threads).countP fun n => k.pinnedCore (.user n) == c

/-- The number of live threads of core `c`: registered and not terminated. -/
def Kernel.livePinned (k : Kernel) (c : Nat) : Nat :=
  (List.range k.threads).countP fun n =>
    k.state (.user n) != .terminated && k.pinnedCore (.user n) == c

/-- No thread that is pinned to core `c` has terminated. -/
def Kernel.NoneTerminated (k : Kernel) (c : Nat) : Prop :=
  ∀ n < k.threads, k.pinnedCore (.user n) = c → k.state (.user n) ≠ .terminated

/-- All threads of the core are live if and only if none has terminated. -/
theorem Kernel.livePinned_eq_iff (k : Kernel) (c : Nat) :
    k.everPinned c = k.livePinned c ↔ k.NoneTerminated c := by
  rw [everPinned, livePinned, ← List.countP_filter, List.countP_eq_length_filter, eq_comm,
    List.countP_eq_length]
  simp [NoneTerminated]

theorem Kernel.everPinned_le (k : Kernel) (c : Nat) : k.everPinned c ≤ k.threads := by
  have hle := List.countP_le_length (l := List.range k.threads)
    (p := fun n => k.pinnedCore (.user n) == c)
  rwa [List.length_range] at hle

/-- A counter is the number of threads that were ever pinned to its core. -/
def PinAccounts (m : Machine) : Prop :=
  ∀ c, m.kernel.pinnedThreadCount c = u32 (m.kernel.everPinned c)

/-- A thread that has been constructed stays on its core. -/
theorem Trans.pinnedOf {l : Label} (ht : Trans cfg m a l m' a') (n : Nat)
    (hn : n < m.kernel.threads) : m'.kernel.pinnedCore (.user n) = m.kernel.pinnedCore (.user n) := by
  refine congrArg (fun f => f.2.2) (ht.fixed (u := .user n) ?_)
  rintro hn'
  cases hn'
  exact Nat.lt_irrefl _ hn

theorem PinAccounts.step (h : PinAccounts m) {l : Label} (ht : Trans cfg m a l m' a') :
    PinAccounts m' := by
  intro c
  have hsame : (List.range m.kernel.threads).countP
      (fun n => m'.kernel.pinnedCore (.user n) == c) = m.kernel.everPinned c := by
    refine List.countP_congr fun n hn => ?_
    rw [ht.pinnedOf n (List.mem_range.mp hn)]
  cases ht.pins with
  | @pin e hthreads hcore hcount =>
    have hnew : m'.kernel.everPinned c = m.kernel.everPinned c + if e = c then 1 else 0 := by
      unfold Kernel.everPinned at hsame ⊢
      rw [hthreads, List.range_succ, List.countP_append, hsame, List.countP_singleton, hcore]
      simp only [beq_iff_eq]
    rw [hcount, h c, hnew]
    by_cases hc : e = c
    · subst hc
      rw [if_pos rfl, if_pos rfl]
      exact Nat.mod_add_mod _ _ _
    · rw [if_neg hc, if_neg (Ne.symm hc), Nat.add_zero]
  | stay hthreads hcount =>
    have hnew : m'.kernel.everPinned c = m.kernel.everPinned c := by
      rw [← hsame]
      unfold Kernel.everPinned
      rw [hthreads]
    rw [hcount, h c, hnew]

theorem PinAccounts.reach (h : Reachable cfg m) : PinAccounts m := by
  obtain ⟨a, -, haccounts⟩ := reach_invariant (fun _ _ hvalid => hvalid)
    (I := fun m _ => PinAccounts m) (fun _ => rfl) (fun _ hI _ ht => hI.step ht) h
  exact haccounts

/-! ## The result -/

/-- While fewer than `2 ^ 32` threads have been constructed the counters do not wrap. -/
theorem PinAccounts.exact (h : PinAccounts m) (hfit : m.kernel.threads < 2 ^ 32 - 1) (c : Nat) :
    m.kernel.pinnedThreadCount c = m.kernel.everPinned c := by
  have hle := m.kernel.everPinned_le c
  rw [h c]
  exact Nat.mod_eq_of_lt (by omega)

/-- **When pinning is balanced.** In every state that the system reaches, with any number of
cores and any history of registrations and terminations, `pinned_thread_count` of a core is
the number of live threads pinned to it if and only if none of the threads pinned to it has
terminated. A thread whose affinity allows a core is then pinned, among the cores it allows,
to the first one whose count is least; so if no thread of an allowed core has terminated, to
the first one with the fewest live threads. -/
theorem counter_is_live_iff {m : Machine} (hreach : Reachable cfg m)
    (hfit : m.kernel.threads < 2 ^ 32 - 1) :
    (∀ c, m.kernel.pinnedThreadCount c = m.kernel.livePinned c ↔ m.kernel.NoneTerminated c) ∧
    ∀ priority affinity, (∃ c < cfg.cores, Kernel.allows affinity c = true) →
      ∃ e, m.kernel.construct cfg priority affinity =
          .ok (m.kernel.constructed cfg priority affinity e) ∧
        FirstLeast (Kernel.allows affinity) m.kernel.pinnedThreadCount cfg.cores e ∧
        ((∀ c < cfg.cores, Kernel.allows affinity c = true → m.kernel.NoneTerminated c) →
          FirstLeast (Kernel.allows affinity) m.kernel.livePinned cfg.cores e) := by
  have hexact := (PinAccounts.reach hreach).exact hfit
  have hlive : ∀ c, m.kernel.pinnedThreadCount c = m.kernel.livePinned c ↔
      m.kernel.NoneTerminated c := by
    intro c
    rw [hexact, Kernel.livePinned_eq_iff]
  refine ⟨hlive, ?_⟩
  rintro priority affinity ⟨c, hc, hall⟩
  have hlt : m.kernel.pinnedThreadCount c < 2 ^ 32 - 1 := by
    rw [hexact]
    exact Nat.lt_of_le_of_lt (m.kernel.everPinned_le c) hfit
  obtain ⟨e, hok, hleast⟩ := m.kernel.construct_firstLeast cfg priority ⟨c, hc, hall, hlt⟩
  refine ⟨e, hok, hleast, fun hnone => hleast.congr fun d hd halld => ?_⟩
  exact ((hlive d).mpr (hnone d hd halld)).symm

/-- With one live thread on core 0, a thread that may run on both cores goes to core 1. -/
theorem second_thread_balanced : ∃ m : Machine, Reachable twoCores m ∧
    m.kernel.livePinned 0 = 1 ∧ m.kernel.livePinned 1 = 0 ∧
    m.kernel.construct twoCores 5 3#32 = .ok (m.kernel.constructed twoCores 5 3#32 1) := by
  have hrun : RunsTo twoCores (fun _ l => l.Valid twoCores)
      (fun m => m.kernel.threads = 1 ∧ m.kernel.livePinned 0 = 1 ∧ m.kernel.livePinned 1 = 0 ∧
        m.kernel.state (.user 0) ≠ .terminated) [.construct 5 1#32] := by decide +kernel
  obtain ⟨m, hreach, hthreads, hzero, hone, hlive⟩ := hrun.reach
  have hnone : ∀ c, m.kernel.NoneTerminated c := by
    intro c n hn _
    rw [hthreads, Nat.lt_one_iff] at hn
    rw [hn]
    exact hlive
  have h := (counter_is_live_iff hreach (by rw [hthreads]; decide)).2 5 3#32 ⟨0, by decide⟩
  obtain ⟨e, hok, -, hleast⟩ := h
  have hleast := hleast fun c _ _ => hnone c
  have he : e = 1 := by
    have hlt : e < 2 := hleast.lt
    have hne : e ≠ 0 := by
      rintro rfl
      have hle := hleast.least 1 (by decide) (by decide)
      omega
    omega
  exact ⟨m, hreach, hzero, hone, he ▸ hok⟩

/-- **A terminated thread keeps its core loaded.** Thread 1, the only one of core 1, returns
and exits; core 1 has no live thread and still counts one. Thread 0, live on core 0, then
constructs a thread that may run on both cores: the counts tie, and it is pinned to core 0. -/
theorem terminated_still_counted : ∃ m m' : Machine, Reachable twoCores m ∧
    (m.kernel.livePinned 0 = 1 ∧ m.kernel.livePinned 1 = 0 ∧ m.exits (.user 1) = 1 ∧
      m.kernel.pinnedThreadCount 1 = 1) ∧
    m.step twoCores (.core 0 (.construct 5 3#32)) = .ok m' ∧
    m'.kernel.pinnedCore (.user 2) = 0 := by
  have hrun : RunsTo twoCores (fun _ l => l.Valid twoCores)
      (fun m => (m.kernel.livePinned 0 = 1 ∧ m.kernel.livePinned 1 = 0 ∧ m.exits (.user 1) = 1 ∧
          m.kernel.pinnedThreadCount 1 = 1) ∧
        ((m.step twoCores (.core 0 (.construct 5 3#32))).toOption.map fun m' =>
          m'.kernel.pinnedCore (.user 2)) = some 0)
      ([.construct 5 1#32, .construct 5 2#32, .start] ++ steps 0 1 ++ steps 1 1 ++
        [.core 1 .ret] ++ steps 1 4) := by decide +kernel
  obtain ⟨m, hreach, hlive, hpin⟩ := hrun.reach
  cases hstep : m.step twoCores (.core 0 (.construct 5 3#32)) with
  | error e =>
    rw [hstep] at hpin
    cases hpin
  | ok m' =>
    rw [hstep] at hpin
    exact ⟨m, m', hreach, hlive, hstep, Option.some.inj hpin⟩

end Cortos
