import Cortos.Machine.WaitCycle

/-!
# Waking a node that was picked earlier

`signal_one` and `signal_all` pick a node under the lock of their waitable and
call `wake_thread` on it after the lock has been released. In between another
signaller can win the group of that node, tear it down and ready its thread,
which may then wait again with the same nodes. The first signaller then works on
a node that is free, or that belongs to another wait.

- `stale_wake_runs`: runs that get there;
- `wake_not_stale`: if no group is torn down while another thread still holds a
  node of it, `wake_thread` is called on a node of the wait it was picked from,
  fails none of its assertions, and completes that wait with the index of the
  signalled waitable.
- `WokenHeld.rereads`: if no group is torn down while another thread is in
  `wake_thread`, past its assertions, what the source reads from the node a second
  time is what it has read before.
-/

namespace Cortos

open Lib WaitNodePool

variable {cfg : Config} {m m' : Machine} {a a' : Life} {c : Nat} {t x u : ThreadRef}

/-- The node that a thread has picked and not yet woken. -/
def ThreadPc.picked : ThreadPc → Option NodeRef
  | wake _ n _ | tryWin _ n _ _ _ _ => some n
  | _ => none

/-- The thread whose group is about to be torn down. -/
def ThreadPc.tearsDown : ThreadPc → Option ThreadRef
  | teardown _ x _ => some x
  | _ => none

/-- A step does not tear down a group while a thread holds a picked node of it. -/
def TearsDownUnpicked (m : Machine) : Label → Prop :=
  Label.OnNext fun c _ => ∀ t ∈ m.kernel.current c, ∀ x ∈ (m.fiber t).tearsDown,
    ∀ i < m.kernel.threads, ∀ n ∈ (m.fiber (.user i)).picked, n.owner ≠ x

instance (m : Machine) : DecidablePred (TearsDownUnpicked m) :=
  inferInstanceAs (DecidablePred (Label.OnNext _))

/-! ## Picked nodes stay fresh -/

/-- The node picked by a thread at this point is still queued on the waitable
that is signalled, for the wait it was picked from, and so it is until the group it has
won is torn down. -/
def ThreadPc.Fresh (waits : ThreadRef → Nat) (waiters : WaitableRef → List NodeRef) :
    ThreadPc → Prop
  | wake s n w => n ∈ waiters s.waitable ∧ waits n.owner = w
  | tryWin s n w _ _ i => n ∈ waiters s.waitable ∧ waits n.owner = w ∧ i = n.slot
  | teardown s x _ => ∃ i, (⟨x, i⟩ : NodeRef) ∈ waiters s.waitable
  | _ => True

/-- The thread has picked the node, or is about to tear it down. -/
def ThreadPc.Holds (pc : ThreadPc) (n : NodeRef) : Prop :=
  pc.picked = some n ∨ pc.tearsDown = some n.owner

/-- All picked nodes are fresh. -/
def PickedFresh (m : Machine) (a : Life) : Prop :=
  ∀ u, (m.fiber u).Fresh m.waits a.waiters

/-- A step that leaves the waits that held nodes belong to alone. -/
theorem ThreadPc.Fresh.mono {pc : ThreadPc} {f f' : ThreadRef → Nat}
    {q q' : WaitableRef → List NodeRef} (h : pc.Fresh f q)
    (hkeep : ∀ n w, pc.Holds n → n ∈ q w → n ∈ q' w ∧ f' n.owner = f n.owner) :
    pc.Fresh f' q' := by
  cases pc with
  | wake s n w =>
    obtain ⟨hq, hw⟩ := hkeep n _ (.inl rfl) h.1
    exact ⟨hq, hw.trans h.2⟩
  | tryWin s n w tcb g i =>
    obtain ⟨hq, hw⟩ := hkeep n _ (.inl rfl) h.1
    exact ⟨hq, hw.trans h.2.1, h.2.2⟩
  | teardown s x g =>
    obtain ⟨i, hi⟩ := h
    exact ⟨i, (hkeep ⟨x, i⟩ _ (.inr rfl) hi).1⟩
  | _ => trivial

/-- A step of thread `t` to `pc`. -/
theorem PickedFresh.acting (h : PickedFresh m a) {pc : ThreadPc}
    (hfiber : m'.fiber = Function.update m.fiber t pc) (hpc : pc.Fresh m'.waits a'.waiters)
    (hkeep : ∀ u n w, u ≠ t → (m.fiber u).Holds n → n ∈ a.waiters w →
      n ∈ a'.waiters w ∧ m'.waits n.owner = m.waits n.owner) : PickedFresh m' a' := by
  intro u
  rw [hfiber]
  by_cases hu : u = t
  · rw [hu, Function.update_self]
    exact hpc
  · rw [Function.update_of_ne hu]
    exact (h u).mono fun n w => hkeep u n w hu

theorem LocalStep.fresh {act : Act} {pc : ThreadPc} (hs : LocalStep cfg m a c t act pc m')
    (hI : (m.fiber t).Fresh m.waits a.waiters) : pc.Fresh m.waits a.waiters := by
  cases hs with
  | pickSome hpc hbest => exact ⟨List.mem_of_mem_filter (List.argmin_mem hbest), rfl⟩
  | wake hpc hheld =>
    rw [hpc] at hI
    exact ⟨hI.1, hI.2, rfl⟩
  | @pickNone b s hpc hnone => rcases s.ret_cases with hr | hr <;> rw [hr] <;> trivial
  | @lost b s n w i tcb g hpc hdone =>
    split
    · trivial
    · rcases s.ret_cases with hr | hr <;> rw [hr] <;> trivial
  | @waitReturn b ws p hpc => cases p <;> trivial
  | spin hpc => split <;> trivial
  | _ => trivial

/-- Only constructed threads pick nodes. -/
theorem Sim.picker_constructed (h : Sim cfg m a) {n : NodeRef}
    (hp : (m.fiber u).picked = some n) : ∃ i < m.kernel.threads, u = .user i := by
  refine h.constructed_of_pc ?_ ?_ <;>
    · intro hpc
      rw [hpc] at hp
      cases hp

/-- A thread that has nodes queued is not about to block. -/
theorem Sim.not_blocking (h : Sim cfg m a) (hcore : m.core c = .thread)
    (hcur : m.kernel.current c = some t) (hnc : ∀ ws p, m.fiber t ≠ .commence ws p)
    {n : NodeRef} {w : WaitableRef} (hn : n ∈ a.waiters w) : n.owner ≠ t := by
  rintro rfl
  have hheld := (h.waiting.mem w n).mp hn
  rcases h.acting_phase hcore hcur with ⟨hr, -⟩ | ⟨-, ws, p, he⟩ | ⟨hr, -⟩
  · simp [hr, Phase.held] at hheld
  · exact hnc ws p he
  · simp [hr, Phase.held] at hheld

/-- **Step lemma**: picked nodes stay fresh. -/
theorem Trans.pickedFresh {l : Label} (ht : Trans cfg m a l m' a') (h : Sim cfg m a)
    (hI : PickedFresh m a) (hl : TearsDownUnpicked m l) : PickedFresh m' a' := by
  cases ht with
  | constructBoot hrun hd hprio => exact hI
  | start hrun hpos => exact hI
  | thread hcore hcur hs =>
    have hf := hs.frame
    refine hI.acting hf.fiber ?_ fun u n w _ _ hn => ⟨hn, by rw [hf.waits]⟩
    rw [hf.waits]
    exact hs.fresh (hI _)
  | construct hcore hcur hpc hd hprio =>
    exact hI.acting rfl trivial fun u n w _ _ hn => ⟨hn, rfl⟩
  | @block c t act ws p links hcore hcur hpc hpos hlen hnd hsim =>
    -- a thread that starts a wait has no nodes queued, so nobody holds one of them
    refine hI.acting rfl trivial fun u n w _ _ hn => ?_
    have hne : n.owner ≠ t := h.not_blocking hcore hcur (fun ws p he => by
      rcases hpc with ⟨hpc, -⟩ | ⟨q, hpc, -⟩ <;> rw [hpc] at he <;> cases he) hn
    refine ⟨(hsim.waiting.mem w n).mpr ?_, Function.update_of_ne hne _ _⟩
    simpa [Life.block, Function.update_of_ne hne] using (h.waiting.mem w n).mp hn
  | ret | terminate => exact hI.acting rfl trivial fun u n w _ _ hn => ⟨hn, rfl⟩
  | @win c t b s n wait i ws hcore hcur hpc hx =>
    have hfresh := hI t
    rw [hpc] at hfresh
    exact hI.acting rfl ⟨n.slot, hfresh.1⟩ fun u n w _ _ hn => ⟨hn, rfl⟩
  | @tearDown c t x b s ws links hcore hcur hpc hx hsim =>
    refine hI.acting rfl trivial fun u n w hut hu hn => ⟨?_, rfl⟩
    have hne : n.owner ≠ x := by
      rcases hu with hu | hu
      · obtain ⟨i, hi, rfl⟩ := h.picker_constructed hu
        exact hl t hcur x (by rw [hpc]; rfl) i hi n hu
      · -- the wait of `x` has been won by `t`, so no other thread tears it down
        rintro rfl
        have hclaim : (m.fiber u).claim = some (n.owner, .tearDown) := by
          cases hpu : m.fiber u <;> simp_all [ThreadPc.tearsDown, ThreadPc.claim]
        have := (h.claims _ _ _).mp hclaim
        rw [hx] at this
        cases this
        exact hut rfl
    exact List.mem_filter.mpr ⟨hn, by simpa using hne⟩
  | @ready c t x b κ pc m' hcore hcur hafter hpin
  | @post c t x b κ pc m' hcore hcur hafter hpin hroom =>
    have hf : ReadyFrame cfg _ _ _ _ _ _ _ _ := hafter.frame
    refine hI.acting hf.fiber ?_ fun u n w _ _ hn => ⟨hn, by rw [hf.waits]⟩
    cases hafter with
    | register hpc => trivial
    | @setReady s s' hpc hs =>
      split
      · trivial
      · rcases s.ret_cases with hr | hr <;> rw [hr] <;> trivial
  | boot hrun hc hcore hpop hsel hsim =>
    have hw := hsel.waiters
    exact fun u => by rw [hw]; exact hI u
  | coreMove hmove => exact hI
  | drainOne hcore hin => exact hI
  | switch hc hcore hcur hnr hpop hsel hsim =>
    have hw := hsel.waiters.trans (Life.rotated_waiters _ _ _ _)
    exact fun u => by rw [hw]; exact hI u

/-- **No stale wake**: when no group is torn down while a thread holds a picked
node of it, `wake_thread` is called on a node whose group is done or that is
still active, linked on the signalled waitable and for the wait it was picked
from; the call fails no assertion; and the wait that `try_win` completes is that
one, with the index of the signalled waitable. -/
theorem wake_not_stale
    (hreach : (system cfg).ReachVia (fun m l => l.Valid cfg ∧ TearsDownUnpicked m l) m) :
    (∀ u s n w, m.fiber u = .wake s n w →
      (m.kernel.done n.owner = true ∨ (m.kernel.node n).active = true ∧
        n ∈ m.kernel.waitQueue cfg s.waitable ∧ m.waits n.owner = w) ∧
      ∀ c b p, m.core c = .thread → m.kernel.current c = some u →
        m.step cfg (.core c (.next b)) ≠ .error (.panic p)) ∧
    (∀ u s n w tcb g i, m.fiber u = .tryWin s n w tcb g i → m.kernel.done g = false →
      ∃ ws p, (m.fiber g = .commence ws p ∨ m.fiber g = .waitReturn ws p) ∧
        ws[i]? = some s.waitable ∧ m.waits g = w) := by
  obtain ⟨a, h, hI⟩ := reach_invariant (I := PickedFresh) (fun _ _ hc => hc.1)
    (fun u => by cases u <;> trivial) (fun hs hI hc ht => ht.pickedFresh hs hI hc.2) hreach
  constructor
  · intro u s n w hpc
    have hfresh := hI u
    rw [hpc] at hfresh
    have hheld := (h.waiting.mem _ n).mp hfresh.1
    have hslot := (List.getElem?_eq_some_iff.mp hheld).1
    refine ⟨.inr ⟨?_, ?_, hfresh.2⟩, fun c b p hcore hcur hstep => ?_⟩
    · rw [h.waiting.node_eq]
      simpa [nodeFor] using hslot
    · rw [h.waitQueue_eq]
      exact hfresh.1
    · rw [Machine.step] at hstep
      split at hstep
      · simp only [Machine.coreStep, hcore, hcur, hpc, Machine.threadNext, h.wake_ok u s w hslot]
          at hstep
        cases hstep
      · cases hstep
  · intro u s n w tcb g i hpc hdone
    have hfresh := hI u
    have hcons := (h.thread u).consistent
    rw [hpc] at hfresh hcons
    obtain ⟨hn, hw, rfl⟩ := hfresh
    obtain ⟨-, -, -, rfl⟩ := hcons
    obtain ⟨ws, p, hf, hws⟩ := h.waiting_fiber hn
    exact ⟨ws, p, hf, hws, hw⟩

/-- A thread waits on two objects; a thread of another core signals the second
of them. -/
theorem wake_not_stale_signal :
    ∃ (m : Machine) (s : SignalCall) (n : NodeRef) (w : Nat), m.fiber (.user 1) = .wake s n w ∧
      (m.kernel.done n.owner = true ∨ (m.kernel.node n).active = true ∧
        n ∈ m.kernel.waitQueue twoCores s.waitable ∧ m.waits n.owner = w) := by
  have hrun : RunsTo twoCores (fun m l => l.Valid twoCores ∧ TearsDownUnpicked m l)
      (fun m => m.fiber (.user 1) = .wake ⟨.object 1, true, false, false, false⟩ ⟨.user 0, 1⟩ 1)
      ([.construct 5 1#32, .construct 5 2#32, .start] ++ steps 0 1 ++ steps 1 1 ++
        [.core 0 (.waitForAny [0, 1]), .core 1 (.signalOne 1 true)] ++ steps 1 1) := by
    decide +kernel
  obtain ⟨m, hreach, hpc⟩ := hrun.reach
  exact ⟨m, _, _, _, hpc, ((wake_not_stale hreach).1 _ _ _ _ hpc).1⟩

/-- Thread 0 waits on objects 0 and 1. Thread 2, on the other core, signals
object 0 and has picked a node of thread 0 when thread 1 signals object 1, wins
the group of thread 0 and tears it down. -/
def freedNodeLabels : List Label :=
  [.construct 5 1#32, .construct 5 1#32, .construct 5 2#32, .start] ++ steps 0 1 ++ steps 1 1 ++
    [.core 0 (.waitForAny [0, 1])] ++ steps 0 5 ++ [.core 1 (.signalOne 0 true)] ++ steps 1 1 ++
    [.core 0 (.signalOne 1 false)] ++ steps 0 4

/-- Thread 1 goes on and yields to thread 0, which waits again, on objects 2 and 3. -/
def recycledNodeLabels : List Label :=
  freedNodeLabels ++ steps 0 1 ++ [.core 0 .yield] ++ steps 0 5 ++ [.core 0 (.waitForAny [2, 3])]

/-- The node is free when thread 2 calls `wake_thread` on it: the call fails an
assertion. If thread 0 has waited again by then, the node is in use again, for
object 2, in the second wait of thread 0, which is not done; the call then
completes that wait with index 0, although object 2 was never signalled. -/
theorem stale_wake_runs :
    RunsTo twoCores (fun _ l => l.Valid twoCores)
      (fun m => m.fiber (.user 2) = .wake ⟨.object 0, true, false, false, false⟩ ⟨.user 0, 0⟩ 1 ∧
        m.panics twoCores (.core 1 (.next false)) = some .wakeNoGroup) freedNodeLabels ∧
    RunsTo twoCores (fun _ l => l.Valid twoCores)
      (fun m => m.fiber (.user 2) = .wake ⟨.object 0, true, false, false, false⟩ ⟨.user 0, 0⟩ 1 ∧
        m.kernel.done (.user 0) = false ∧ m.waits (.user 0) = 2 ∧
        (m.kernel.node ⟨.user 0, 0⟩).waitable = some (.object 2)) recycledNodeLabels ∧
    RunsTo twoCores (fun _ l => l.Valid twoCores)
      (fun m => m.fiber (.user 0) = .commence [.object 2, .object 3] none ∧
        m.kernel.done (.user 0) = true ∧ (m.kernel.tcbs (.user 0)).waitGroup.winnerIndex = 0)
      (recycledNodeLabels ++ steps 1 2) := by
  refine ⟨?_, ?_, ?_⟩ <;> decide +kernel

/-! ## What `wake_thread` reads again -/

/-- The node of a `wake_thread` that has passed its assertions and not called `try_win`. -/
def ThreadPc.woken : ThreadPc → Option NodeRef
  | tryWin _ n _ _ _ _ => some n
  | _ => none

/-- A step does not tear down a group while a thread is in `wake_thread` on a node of it,
between the assertions and `try_win`. -/
def WakesUndisturbed (m : Machine) : Label → Prop :=
  fun l => ∀ t ∈ m.acting l, ∀ x ∈ (m.fiber t).tearsDown,
    ∀ i < m.kernel.threads, ∀ n ∈ (m.fiber (.user i)).woken, n.owner ≠ x

instance (m : Machine) : DecidablePred (WakesUndisturbed m) :=
  fun l => inferInstanceAs (Decidable (∀ t ∈ m.acting l, _))

/-- The nodes that threads have in `wake_thread` are in use. -/
def WokenHeld (m : Machine) (a : Life) : Prop :=
  ∀ u, ∀ n ∈ (m.fiber u).woken, n.slot < (a.phase n.owner).held.length

theorem WokenHeld.initial (cfg : Config) : WokenHeld (Machine.initial cfg) (Life.initial cfg) := by
  intro u n hn
  cases u <;> cases hn

/-- The fields of a node in `wake_thread` are those it has read. -/
theorem WokenHeld.rereads (hI : WokenHeld m a) (h : Sim cfg m a) {n : NodeRef}
    (hn : (m.fiber u).woken = some n) : (m.kernel.node n).tcb = some n.owner ∧
      (m.kernel.node n).group = some n.owner ∧ (m.kernel.node n).index = n.slot := by
  have hslot := hI u n hn
  rw [h.waiting.node_eq n]
  simp [nodeFor, hslot]

theorem LocalStep.woken {act : Act} {pc : ThreadPc} (hs : LocalStep cfg m a c t act pc m')
    {n : NodeRef} (hn : pc.woken = some n) : n.slot < (a.phase n.owner).held.length := by
  cases hs with
  | wake hpc hheld =>
    cases hn
    exact hheld
  | @pickNone b s hpc hnone => rcases s.ret_cases with hr | hr <;> rw [hr] at hn <;> cases hn
  | @lost b s n w i tcb g hpc hdone =>
    split at hn
    · cases hn
    · rcases s.ret_cases with hr | hr <;> rw [hr] at hn <;> cases hn
  | @waitReturn b ws p hpc => cases p <;> cases hn
  | spin hpc => split at hn <;> cases hn
  | _ => cases hn

/-- A thread comes to a node in `wake_thread` by the assertions, which it passes if the node is
in use. -/
theorem Trans.woken {l : Label} (ht : Trans cfg m a l m' a') {n : NodeRef}
    (hn : (m'.fiber u).woken = some n) :
    (m.fiber u).woken = some n ∨ n.slot < (a.phase n.owner).held.length := by
  have hset : ∀ {t pc}, m'.fiber = Function.update m.fiber t pc →
      (pc.woken = some n → n.slot < (a.phase n.owner).held.length) →
      (m.fiber u).woken = some n ∨ n.slot < (a.phase n.owner).held.length := by
    intro t pc hfiber hpc
    rw [hfiber] at hn
    by_cases hu : u = t
    · rw [hu, Function.update_self] at hn
      exact .inr (hpc hn)
    · rw [Function.update_of_ne hu] at hn
      exact .inl hn
  cases ht with
  | thread hcore hcur hs => exact hset hs.frame.fiber hs.woken
  | construct | block | ret | terminate | win | tearDown => exact hset rfl nofun
  | ready hcore hcur hafter | post hcore hcur hafter =>
    have hf : ReadyFrame cfg _ _ _ _ _ _ _ _ := hafter.frame
    refine hset hf.fiber fun hpc => ?_
    cases hafter with
    | register hpc => cases hpc
    | @setReady s s' hpc hs =>
      split at hpc
      · cases hpc
      · rcases s.ret_cases with hr | hr <;> rw [hr] at hpc <;> cases hpc
  | constructBoot | start | boot | coreMove | drainOne | switch => exact .inl hn

/-- **Step lemma**: the nodes in `wake_thread` stay in use. -/
theorem Trans.wokenHeld {l : Label} (ht : Trans cfg m a l m' a') (h : Sim cfg m a)
    (hI : WokenHeld m a) (hl : WakesUndisturbed m l) : WokenHeld m' a' := by
  intro u n hn
  have hslot : n.slot < (a.phase n.owner).held.length := (ht.woken hn).elim (hI u n) id
  cases ht.waitMove h n.owner with
  | keep _ _ hphase =>
    rcases hphase with hsame | ⟨hawake, -⟩
    · rwa [hsame]
    · rw [Phase.held_of_not_asleep hawake] at hslot
      cases hslot
  | block _ _ _ _ _ _ hphase | wake _ _ hphase =>
    rw [hphase] at hslot
    cases hslot
  | win _ _ _ _ hphase hphase' =>
    rw [hphase] at hslot
    rwa [hphase']
  | @tearDown v ws _ _ hphase hphase' =>
    -- only the winner tears the group down, and it has left `try_win` behind
    obtain ⟨hact, hclaim⟩ := ht.tearDown_acting h hphase hphase'
    have hclaim' : (m'.fiber v).claim = some (n.owner, .wakeUp) :=
      ((ht.sim h).claims n.owner v _).mpr (by rw [hphase']; rfl)
    have huv : u ≠ v := by
      rintro rfl
      cases hpc : m'.fiber u <;> simp_all [ThreadPc.woken, ThreadPc.claim]
    have hsame : m'.fiber u = m.fiber u := by
      rcases ht.fiber u with hsame | ⟨c, act, hcl, hcore, hcur⟩
      · exact hsame
      · rw [hcl, Machine.acting_core hcore hcur] at hact
        exact absurd (Option.some.inj hact) huv
    rw [hsame] at hn
    have hpicked : (m.fiber u).picked = some n := by
      cases hpc : m.fiber u <;> simp_all [ThreadPc.woken, ThreadPc.picked]
    have htears : (m.fiber v).tearsDown = some n.owner := by
      cases hpc : m.fiber v <;> simp_all [ThreadPc.tearsDown, ThreadPc.claim]
    obtain ⟨i, hi, rfl⟩ := h.picker_constructed hpicked
    exact absurd rfl (hl v hact n.owner htears i hi n hn)

/-- On one core nobody else is in `wake_thread` while a group is torn down. -/
theorem Sim.wakesUndisturbed (h : Sim cfg m a) (hone : cfg.cores ≤ 1) (l : Label) :
    WakesUndisturbed m l := by
  intro t hact x hx i _ n hn _
  obtain ⟨c, act, rfl, hcore, hcur⟩ := m.acting_some hact
  have hexec : m.Executing (.user i) := by
    refine (h.thread _).executing.resolve_right fun hs => ?_
    cases hpc : m.fiber (.user i) <;> simp_all [ThreadPc.woken, ThreadPc.suspended]
  obtain rfl := h.executing_unique hone (h.executing hcore hcur) hexec
  cases hpc : m.fiber (.user i) <;> simp_all [ThreadPc.woken, ThreadPc.tearsDown]

end Cortos
