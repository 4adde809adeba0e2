import Cortos.Machine.Observation

/-!
# Signals that wake nobody

`signal_one` picks the best waiter under the lock of its waitable and then tries
to win its group. If a signal on another waitable wins that group first, the call
returns without trying the next waiter.

- `lost_signal_run`: a run in which a signal is lost although another thread
  waits on the waitable all the time;
- `no_lost_signal`: if a group is won under a `signal_one` that holds one of its
  nodes only when no other waiter is eligible there, a call that returns without
  completing a wait has seen an instant without eligible waiters.
-/

namespace Cortos

open Lib

variable {cfg : Config} {m m' : Machine} {a a' : Life} {c : Nat} {t x u : ThreadRef}

namespace ThreadPc

/-- The signal and the node it has picked and not yet won. -/
def holding : ThreadPc → Option (SignalCall × NodeRef)
  | wake s n _ | tryWin s n _ _ _ _ => some (s, n)
  | _ => none

/-- The group that the thread is about to try to win. -/
def tries : ThreadPc → Option ThreadRef
  | tryWin _ _ _ _ group _ => some group
  | _ => none

/-- In the signal `s`, with no wait completed so far. -/
def signalling (s : SignalCall) (pc : ThreadPc) : Prop :=
  pc = pick s ∨ ∃ n, pc.holding = some (s, n)

end ThreadPc

/-- If the thread at `pc` is in a `signal_one` and has picked a node of the group
of `g`, no other waiter is eligible for its signal. -/
def HoldsLast (cfg : Config) (k : Kernel) (g : ThreadRef) (pc : ThreadPc) : Prop :=
  ∀ h ∈ pc.holding, h.1.all = false → h.2.owner = g →
    ∀ n ∈ k.eligibleWaiters cfg h.1.waitable, n.owner = g

instance (k : Kernel) (g : ThreadRef) : DecidablePred (HoldsLast cfg k g) :=
  fun pc => inferInstanceAs (Decidable (∀ h ∈ pc.holding, _))

/-- If thread `u` wins group `g` now, no other thread loses a signal by it. -/
def WonLast (cfg : Config) (m : Machine) (u g : ThreadRef) : Prop :=
  m.kernel.done g = false → ∀ i < m.kernel.threads, .user i ≠ u →
    HoldsLast cfg m.kernel g (m.fiber (.user i))

instance (m : Machine) (u g : ThreadRef) : Decidable (WonLast cfg m u g) :=
  inferInstanceAs (Decidable (m.kernel.done g = false → _))

/-- A step wins a group, of which a `signal_one` of another thread has picked a
node, only if the waitable of that signal has no other eligible waiter. -/
def WinsLast (cfg : Config) (m : Machine) : Label → Prop :=
  Label.OnNext fun c _ => ∀ u ∈ m.kernel.current c, ∀ g ∈ (m.fiber u).tries, WonLast cfg m u g

instance (m : Machine) : DecidablePred (WinsLast cfg m) :=
  inferInstanceAs (DecidablePred (Label.OnNext _))

/-! ## Calls in a run -/

/-- A call of `signal_one` on object `o`. -/
def SignalCall.one (o : Nat) (acquired : Bool) : SignalCall :=
  { waitable := .object o, acquired := acquired, all := false, reschedule := false,
    exiting := false }

/-- In the run `r`, thread `t` calls `signal_one` on `o` in step `i` and returns
from it in step `j`, without having completed a wait. -/
structure FruitlessSignal {N : Nat} (r : (system cfg).Run N) (t : ThreadRef) (o : Nat)
    (acquired : Bool) (i j : Nat) : Prop where
  lt : i < j
  le : j < N
  called : ∃ c, (r.state i).core c = .thread ∧ (r.state i).kernel.current c = some t ∧
    (r.state i).fiber t = .user ∧ r.label i = .core c (.signalOne o acquired)
  during : ∀ k, i < k → k ≤ j → ((r.state k).fiber t).signalling (.one o acquired)
  returned : (r.state (j + 1)).fiber t = .user

/-! ## Steps of the signaller and of the others -/

/-- Only constructed threads hold nodes. -/
theorem Sim.holder_constructed (h : Sim cfg m a) {p : SignalCall × NodeRef}
    (hp : (m.fiber u).holding = some p) : ∃ i < m.kernel.threads, u = .user i := by
  refine h.constructed_of_pc ?_ ?_ <;>
    · intro hpc
      rw [hpc] at hp
      cases hp

/-- When the group of a held node is won by another thread, no eligible waiter
is left on the waitable of the holder. -/
theorem Trans.won_under {l : Label} (ht : Trans cfg m a l m' a') (h : Sim cfg m a)
    (hl : WinsLast cfg m l) {s : SignalCall} {n : NodeRef} (hall : s.all = false)
    (hhold : (m.fiber t).holding = some (s, n)) (hother : (m'.fiber t) = m.fiber t)
    (hold : m.kernel.done n.owner = false) (hnew : m'.kernel.done n.owner = true) :
    m'.kernel.eligibleWaiters cfg s.waitable = [] := by
  have hsim' := ht.sim h
  obtain ⟨c, b, u, s', n', w, i, ws, rfl, hcore, hcur, hpc, hn, rfl, rfl⟩ := ht.won hold hnew
  have htu : t ≠ u := by
    rintro rfl
    rw [hpc] at hother
    simp [Machine.goto] at hother
  obtain ⟨j, hj, rfl⟩ := h.holder_constructed hhold
  have hlast := hl u hcur n.owner (by rw [hpc, hn]; rfl) hold j hj htu (s, n) hhold hall rfl
  rw [hsim'.eligibleWaiters_eq]
  rw [h.eligibleWaiters_eq] at hlast
  refine List.filter_eq_nil_iff.mpr fun n'' hn'' hel => ?_
  by_cases ho : n''.owner = n'.owner
  · simp [Machine.goto, Kernel.win, Kernel.modifyTcb, Kernel.done, ho] at hel
  · refine ho ((hlast n'' (List.mem_filter.mpr ⟨hn'', ?_⟩)).trans hn.symm)
    simpa [Machine.goto, Kernel.win, Kernel.modifyTcb, Kernel.done,
      Function.update_of_ne ho] using hel

/-- What a step of the signaller itself can do while no wait is completed: pick
an eligible waiter, go on with the one it has, or return. -/
inductive SignalStep (m : Machine) (a : Life) (t : ThreadRef) (s : SignalCall) (m' : Machine) : Prop
  | none (hpc : m.fiber t = .pick s)
    (hnone : WaitRep.eligible m.kernel (a.waiters s.waitable) = [])
  | pick {n : NodeRef} (hold : (m'.fiber t).holding = some (s, n))
    (hdone : m'.kernel.done n.owner = false)
  | go {n : NodeRef} (hold : (m.fiber t).holding = some (s, n))
    (hold' : (m'.fiber t).holding = some (s, n)) (hk : m'.kernel = m.kernel)
  | lost {n : NodeRef} (hold : (m.fiber t).holding = some (s, n))
    (hdone : m.kernel.done n.owner = true)
  | win (hpc : ∃ x g, m'.fiber t = .teardown s x g)

theorem LocalStep.signalStep {act : Act} {pc : ThreadPc} (hstep : LocalStep cfg m a c t act pc m')
    (h : Sim cfg m a) {s : SignalCall} (hs : (m.fiber t).signalling s) :
    SignalStep m a t s m' := by
  have hcons := (h.thread t).consistent
  cases hstep with
  | @pickNone b s' hpc hnone =>
    obtain rfl : s' = s := by simpa [hpc, ThreadPc.signalling, ThreadPc.holding] using hs
    exact .none hpc hnone
  | @pickSome b s' n hpc hbest =>
    obtain rfl : s' = s := by simpa [hpc, ThreadPc.signalling, ThreadPc.holding] using hs
    refine .pick (n := n) (by simp [Machine.goto, ThreadPc.holding]) ?_
    simpa [Machine.goto] using (List.mem_filter.mp (List.argmin_mem hbest)).2
  | @wake b s' n w hpc hheld =>
    obtain rfl : s' = s := by simpa [hpc, ThreadPc.signalling, ThreadPc.holding] using hs
    exact .go (n := n) (by rw [hpc]; rfl) (by simp [Machine.goto, ThreadPc.holding]) rfl
  | @lost b s' n w i x g hpc hdone =>
    obtain rfl : s' = s := by simpa [hpc, ThreadPc.signalling, ThreadPc.holding] using hs
    rw [hpc] at hcons
    exact .lost (n := n) (by rw [hpc]; rfl) (hcons.2.2.2 ▸ hdone)
  | _ => simp_all [ThreadPc.signalling, ThreadPc.holding]

theorem Trans.signalStep {act : Act} (ht : Trans cfg m a (.core c act) m' a') (h : Sim cfg m a)
    (hcore : m.core c = .thread) (hcur : m.kernel.current c = some t) {s : SignalCall}
    (hs : (m.fiber t).signalling s) : SignalStep m a t s m' := by
  have hclaim : (m.fiber t).claim = none := by
    cases hpc : m.fiber t <;>
      simp_all [ThreadPc.signalling, ThreadPc.holding, ThreadPc.claim]
  have hsame : ∀ {u}, m.kernel.current c = some u → u = t := fun hu => by
    rw [hcur] at hu
    exact (Option.some.inj hu).symm
  cases ht with
  | thread _ hcur' hstep =>
    rw [hsame hcur'] at hstep
    exact hstep.signalStep h hs
  | construct _ hcur' hpc | ret _ hcur' hpc | terminate _ hcur' hpc | tearDown _ hcur' hpc =>
    rw [hsame hcur'] at hpc
    simp [hpc, ThreadPc.signalling, ThreadPc.holding] at hs
  | block _ hcur' hpc hpos hlen hnd hsim =>
    rw [hsame hcur'] at hpc
    rcases hpc with ⟨hpc, -⟩ | ⟨q, hpc, -⟩ <;>
      simp [hpc, ThreadPc.signalling, ThreadPc.holding] at hs
  | @win _ u b s' n w i ws _ hcur' hpc hx =>
    obtain rfl := hsame hcur'
    obtain rfl : s' = s := by simpa [hpc, ThreadPc.signalling, ThreadPc.holding] using hs
    exact .win ⟨n.owner, n.owner, Function.update_self ..⟩
  | ready _ hcur' hafter | post _ hcur' hafter =>
    have hf : ReadyFrame cfg _ _ _ _ _ _ _ _ := hafter.frame
    have := hf.claim
    rw [hsame hcur', hclaim] at this
    cases this
  | boot hrun hc hcore' hpop hsel hsim => rw [hcore] at hcore'; cases hcore'
  | coreMove hmove => exact absurd hcore hmove.core.2
  | drainOne hcore' hin => rw [hcore] at hcore'; cases hcore'
  | switch hc hcore' hcur' hnr hpop hsel hsim => rw [hcore] at hcore'; cases hcore'

/-! ## The theorem -/

/-- What is known in state `k` of a call that began in step `i`: it has not
picked yet, or the group of its node is not won, or there has been an instant
without eligible waiters. -/
def Lossless {N : Nat} (r : (system cfg).Run N) (t : ThreadRef) (s : SignalCall) (i k : Nat) :
    Prop :=
  (r.state k).fiber t = .pick s ∨
    ∃ n, ((r.state k).fiber t).holding = some (s, n) ∧
      ((r.state k).kernel.done n.owner = false ∨
        ∃ k', i < k' ∧ k' ≤ k ∧ (r.state k').kernel.eligibleWaiters cfg s.waitable = [])

variable {N : Nat} {r : (system cfg).Run N}

theorem Lossless.signalling {s : SignalCall} {i k : Nat} (h : Lossless r t s i k) :
    ((r.state k).fiber t).signalling s :=
  h.imp id fun ⟨n, hn, _⟩ => ⟨n, hn⟩

theorem Lossless.held {s : SignalCall} {i k : Nat} {n : NodeRef} (h : Lossless r t s i k)
    (hn : ((r.state k).fiber t).holding = some (s, n)) :
    (r.state k).kernel.done n.owner = false ∨
      ∃ k', i < k' ∧ k' ≤ k ∧ (r.state k').kernel.eligibleWaiters cfg s.waitable = [] := by
  rcases h with hpc | ⟨n', hn', hd⟩
  · rw [hpc] at hn
    cases hn
  · rw [hn] at hn'
    obtain rfl : n = n' := by simpa using hn'
    exact hd

/-- An instant without eligible waiters is all that has to be known. -/
theorem Lossless.of_instant {s : SignalCall} {i k k' : Nat} (hik : i < k') (hk : k' ≤ k)
    (hnone : (r.state k').kernel.eligibleWaiters cfg s.waitable = [])
    (hs : ((r.state k).fiber t).signalling s) : Lossless r t s i k :=
  hs.imp id fun ⟨n, hn⟩ => ⟨n, hn, .inr ⟨k', hik, hk, hnone⟩⟩

/-- The call begins with no node picked. -/
theorem Lossless.start {o : Nat} {acquired : Bool} {i j : Nat}
    (h : FruitlessSignal r t o acquired i j) : Lossless r t (.one o acquired) i (i + 1) := by
  obtain ⟨c, hcore, hcur, hpc, hl⟩ := h.called
  have hnext : (r.state i).step cfg (r.label i) = .ok (r.state (i + 1)) :=
    r.next i (by have := h.lt; have := h.le; omega)
  rw [hl, Machine.step] at hnext
  split at hnext
  · simp only [Machine.coreStep, hcore, hcur, hpc, Machine.call, Except.ok.injEq] at hnext
    refine .inl ?_
    rw [← hnext]
    exact Function.update_self ..
  · cases hnext

variable (hC : ∀ k < N, (r.label k).Valid cfg ∧ WinsLast cfg (r.state k) (r.label k))
include hC

theorem run_trans {k : Nat} (hk : k < N) : ∃ a a', Sim cfg (r.state k) a ∧
    Trans cfg (r.state k) a (r.label k) (r.state (k + 1)) a' := by
  obtain ⟨a, ha⟩ := reach_sim (C := fun m l => l.Valid cfg ∧ WinsLast cfg m l)
    (fun _ _ hc => hc.1) (r.reachVia hC k (Nat.le_of_lt hk))
  obtain ⟨a', ht⟩ := ha.trans (hC k hk).1 (r.next k hk)
  exact ⟨a, a', ha, ht⟩

/-- **Step lemma**: a step during the call keeps it. -/
theorem Lossless.step {s : SignalCall} (hall : s.all = false) {i k : Nat} (hk : k < N)
    (hik : i < k) (h : Lossless r t s i k)
    (hnext : ((r.state (k + 1)).fiber t).signalling s) : Lossless r t s i (k + 1) := by
  obtain ⟨a, a', ha, ht⟩ := run_trans hC hk
  rcases ht.fiber t with hfiber | ⟨c, act, hl, hcore, hcur⟩
  · -- another thread moves: the group of the node may be won by it
    rcases h with hpc | ⟨n, hn, hd⟩
    · exact .inl (hfiber.trans hpc)
    · refine .inr ⟨n, by rw [hfiber, hn], ?_⟩
      rcases hd with hd | ⟨k', hik', hk', hnone⟩
      · cases hd' : (r.state (k + 1)).kernel.done n.owner with
        | false => exact .inl rfl
        | true =>
          have hnone := ht.won_under ha (hC k hk).2 hall hn hfiber hd hd'
          exact .inr ⟨k + 1, by omega, Nat.le_refl _, hnone⟩
      · exact .inr ⟨k', hik', by omega, hnone⟩
  · rw [hl] at ht
    rcases ht.signalStep ha hcore hcur h.signalling with
      ⟨-, hnone⟩ | ⟨hn, hd⟩ | ⟨hn, hn', hkernel⟩ | ⟨hn, hd⟩ | ⟨x, g, hpc⟩
    · rw [← ha.eligibleWaiters_eq] at hnone
      exact .of_instant hik (Nat.le_succ k) hnone hnext
    · exact .inr ⟨_, hn, .inl hd⟩
    · refine .inr ⟨_, hn', ?_⟩
      rw [hkernel]
      exact (h.held hn).imp id fun ⟨k', h1, h2, h3⟩ => ⟨k', h1, by omega, h3⟩
    · rcases h.held hn with hd' | ⟨k', hik', hk', hnone⟩
      · rw [hd] at hd'
        cases hd'
      · exact .of_instant hik' (by omega) hnone hnext
    · rw [hpc] at hnext
      rcases hnext with he | ⟨n, he⟩ <;> cases he

/-- **No lost signal**: in a run in which a group is won under a `signal_one`
that has picked a node of it only when no other waiter is eligible there, a call
of `signal_one` that returns without having completed a wait has seen an instant
at which the object had no eligible waiter. -/
theorem no_lost_signal {o : Nat} {acquired : Bool} {i j : Nat}
    (h : FruitlessSignal r t o acquired i j) :
    ∃ k, i < k ∧ k ≤ j ∧ (r.state k).kernel.eligibleWaiters cfg (.object o) = [] := by
  have hlossless : ∀ k, i + 1 ≤ k → k ≤ j → Lossless r t (.one o acquired) i k := by
    intro k hk
    induction k, hk using Nat.le_induction with
    | base => exact fun _ => .start h
    | succ k hk ih =>
      intro hkj
      have hle := h.le
      exact (ih (by omega)).step hC rfl (by omega) hk (h.during _ (by omega) hkj)
  have hlast := hlossless j h.lt (Nat.le_refl j)
  obtain ⟨a, a', ha, ht⟩ := run_trans hC h.le
  have hret := h.returned
  rcases ht.fiber t with hfiber | ⟨c, act, hl, hcore, hcur⟩
  · have hs := h.during j h.lt (Nat.le_refl j)
    rw [← hfiber, hret] at hs
    rcases hs with he | ⟨n, he⟩ <;> cases he
  · rw [hl] at ht
    rcases ht.signalStep ha hcore hcur hlast.signalling with
      ⟨-, hnone⟩ | ⟨hn, -⟩ | ⟨-, hn, -⟩ | ⟨hn, hd⟩ | ⟨x, g, hpc⟩
    · rw [← ha.eligibleWaiters_eq] at hnone
      exact ⟨j, h.lt, Nat.le_refl j, hnone⟩
    · rw [hret] at hn
      cases hn
    · rw [hret] at hn
      cases hn
    · rcases hlast.held hn with hd' | hinstant
      · rw [hd] at hd'
        cases hd'
      · exact hinstant
    · rw [hret] at hpc
      cases hpc

omit hC

instance (s : SignalCall) : DecidablePred (ThreadPc.signalling s) := fun pc =>
  decidable_of_iff (pc = .pick s ∨ pc.holding.map Prod.fst = some s) <| by
    rw [ThreadPc.signalling]
    refine or_congr Iff.rfl ?_
    cases hp : pc.holding <;> simp [Prod.ext_iff, eq_comm]

/-- Thread 0 waits on objects 0 and 1, and nobody else waits. Thread 2, on the other
core, signals object 0 and has picked thread 0 when thread 1 signals object 1 and wins
the group of thread 0. -/
def heldGroup : (system twoCores).Run 20 :=
  .ofLabels (Machine.initial twoCores)
    ([.construct 5 1#32, .construct 7 1#32, .construct 5 2#32, .start] ++ steps 0 1 ++
      steps 1 1 ++ [.core 0 (.waitForAny [0, 1])] ++ steps 0 5 ++ [.core 1 (.signalOne 0 true)] ++
      steps 1 2 ++ [.core 0 (.signalOne 1 false)] ++ steps 0 3 ++ steps 1 1)
    .start (by exact system_init twoCores) (by decide +kernel)

/-- The signal of thread 2 holds a node of thread 0 while thread 1 wins its group, and
completes no wait. Object 0 has no eligible waiter left then. -/
theorem no_lost_signal_held :
    (((heldGroup.state 18).fiber (.user 2)).holding = some (.one 0 true, ⟨.user 0, 0⟩) ∧
      ((heldGroup.state 18).fiber (.user 1)).tries = some (.user 0) ∧
      (heldGroup.state 18).kernel.done (.user 0) = false ∧
      (heldGroup.state 19).kernel.done (.user 0) = true) ∧
    FruitlessSignal heldGroup (.user 2) 0 true 12 19 ∧
    ∃ k, 12 < k ∧ k ≤ 19 ∧
      (heldGroup.state k).kernel.eligibleWaiters twoCores (.object 0) = [] := by
  have hC : ∀ k < 20, (heldGroup.label k).Valid twoCores ∧
      WinsLast twoCores (heldGroup.state k) (heldGroup.label k) := by decide +kernel
  have hduring : ∀ k < 20, 12 < k →
      ((heldGroup.state k).fiber (.user 2)).signalling (.one 0 true) := by decide +kernel
  have hcall : FruitlessSignal heldGroup (.user 2) 0 true 12 19 :=
    ⟨by decide, by decide, ⟨1, by decide +kernel, by decide +kernel, by decide +kernel, rfl⟩,
      fun k hk hk' => hduring k (by omega) hk, by decide +kernel⟩
  exact ⟨by decide +kernel, hcall, no_lost_signal hC hcall⟩

/-- Thread 0 waits on objects 0 and 1, thread 1, less urgent, on object 0. Thread
3, on the other core, signals object 0 and has picked thread 0 when thread 2
signals object 1 and wins the group of thread 0. -/
def lostSignal : (system twoCores).Run 27 :=
  .ofLabels (Machine.initial twoCores)
    ([.construct 5 1#32, .construct 6 1#32, .construct 7 1#32, .construct 5 2#32, .start] ++
      steps 0 1 ++ steps 1 1 ++ [.core 0 (.waitForAny [0, 1])] ++ steps 0 5 ++
      [.core 0 (.waitForAny [0])] ++ steps 0 5 ++ [.core 1 (.signalOne 0 true)] ++ steps 1 2 ++
      [.core 0 (.signalOne 1 false)] ++ steps 0 3 ++ steps 1 1)
    .start (by exact system_init twoCores) (by decide +kernel)

/-- The signal of thread 3 completes no wait, although thread 1 waits on object 0
during the whole call. -/
theorem lost_signal_run :
    (∀ k < 27, (lostSignal.label k).Valid twoCores) ∧
      FruitlessSignal lostSignal (.user 3) 0 true 19 26 ∧
      ∀ k < 27, 19 < k →
        ⟨.user 1, 0⟩ ∈ (lostSignal.state k).kernel.eligibleWaiters twoCores (.object 0) := by
  have hduring : ∀ k < 27, 19 < k →
      ((lostSignal.state k).fiber (.user 3)).signalling (.one 0 true) := by decide +kernel
  refine ⟨by decide +kernel, ⟨by decide, by decide,
    ⟨1, by decide +kernel, by decide +kernel, by decide +kernel, rfl⟩,
    fun k hk hk' => hduring k (by omega) hk, by decide +kernel⟩, by decide +kernel⟩

end Cortos
