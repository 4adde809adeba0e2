import Cortos.Machine.WaitCycle

/-!
# The hooks of a waitable

A `Waitable` may override `on_thread_blocked` and `on_thread_removed`. A thread that has
blocked calls the first on each of its waitables, after it has released their locks and
before it gives up the core (`notify_block`). The signal that wins the wait calls the second
on the same waitables, after `teardown_wait_group` has released the locks and before the
thread is made ready.

- `Hooked`: the system with the calls that each thread still has to make in such a loop, and
  the calls that have been made. A thread takes no other step until its loop has ended. What
  the overrides do is left open, except that they make no kernel calls.
- `Hooked.rereads`: for which group the winner makes its calls, it reads from the node after
  `try_win`. If another signaller has freed the node by then, there is no group.
- `HookMove`: what a step of the machine does to waits and loops.
-/

namespace Cortos

open Lib

variable {cfg : Config} {m m' : Machine} {a a' : Life} {l : Label} {c : Nat} {t x u : ThreadRef}

/-! ## The calls -/

/-- `Waitable::Waiter`. -/
structure Waiter where
  id : Nat
  basePriority : Nat
  effectivePriority : Nat
  pinnedCore : Nat
  affinity : BitVec 32
  deriving DecidableEq, Repr

inductive Hook where
  | onThreadBlocked
  | onThreadRemoved
  deriving DecidableEq, Repr

/-- A call of a hook. -/
structure HookCall where
  hook : Hook
  waitable : WaitableRef
  waiter : Waiter
  /-- The thread of which `waiter` is the snapshot. -/
  thread : ThreadRef
  deriving DecidableEq, Repr

/-- The system with its hooks. The overrides make no kernel calls: a thread in one of them
does not signal, wait or construct threads. -/
structure Hooked where
  machine : Machine
  /-- The `base_priority` of each thread, which only `create_waiter` reads. -/
  basePriority : ThreadRef → Nat
  /-- The group that a winner has read from its node after `try_win`. -/
  group : ThreadRef → Option ThreadRef
  /-- The calls that a thread still has to make in `notify_block` or at the end of
  `teardown_wait_group`. -/
  due : ThreadRef → List HookCall
  /-- The calls that have been made, the oldest first. -/
  made : List HookCall

inductive HookedLabel where
  /-- A step of the machine. -/
  | step (l : Label)
  /-- The thread that core `c` executes makes the next call of its loop. -/
  | hook (c : Nat)
  deriving DecidableEq, Repr

namespace Hooked

/-- `ThreadControlBlock::create_waiter`. -/
def createWaiter (s : Hooked) (t : ThreadRef) : Waiter where
  id := (s.machine.kernel.tcbs t).id
  basePriority := s.basePriority t
  effectivePriority := (s.machine.kernel.tcbs t).effectivePriority
  pinnedCore := (s.machine.kernel.tcbs t).pinnedCore
  affinity := (s.machine.kernel.tcbs t).affinity

/-- One call on each of the waitables, all with the same snapshot. -/
def loop (s : Hooked) (hook : Hook) (t : ThreadRef) (ws : List WaitableRef) : List HookCall :=
  ws.map fun w => ⟨hook, w, s.createWaiter t, t⟩

/-- What `wake_thread` reads as the group after `try_win`. -/
def rereads (s : Hooked) (t : ThreadRef) : Option ThreadRef :=
  match s.machine.fiber t with
  | .tryWin _ n _ _ _ _ => (s.machine.kernel.node n).group
  | _ => s.group t

/-- The calls at the end of `teardown_wait_group`. No node belongs to the group if it is
null. -/
def removes (cfg : Config) (s : Hooked) (tcb : ThreadRef) : Option ThreadRef → List HookCall
  | none => []
  | some group =>
    match (List.range cfg.maxWaitNodes).foldlM
      (s.machine.kernel.collectWaitable cfg tcb group) [] with
    | .ok waitables => s.loop .onThreadRemoved tcb waitables
    | .error _ => []

/-- The loop that thread `t` enters with the step to `m`. -/
def enters (cfg : Config) (s : Hooked) (t : ThreadRef) (m : Machine) : List HookCall :=
  match s.machine.fiber t, m.fiber t with
  | .teardown _ tcb _, _ => s.removes cfg tcb (s.group t)
  | _, .commence ws _ => s.loop .onThreadBlocked t ws
  | _, _ => []

/-- The constructor of `ThreadControlBlock` sets both priorities to its argument. -/
def baseAfter (s : Hooked) : Label → ThreadRef → Nat
  | .construct priority _ | .core _ (.construct priority _) =>
    Function.update s.basePriority (.user s.machine.kernel.threads) priority.toNat
  | _ => s.basePriority

def step (cfg : Config) (s : Hooked) : HookedLabel → Except Fault Hooked
  | .step l =>
    match s.machine.acting l with
    | none => do
      let m ← s.machine.step cfg l
      return { s with machine := m, basePriority := s.baseAfter l }
    | some t =>
      -- the thread is in no loop
      if s.due t = [] then do
        let m ← s.machine.step cfg l
        return { s with
          machine := m
          basePriority := s.baseAfter l
          group := Function.update s.group t (s.rereads t)
          due := Function.update s.due t (s.enters cfg t m) }
      else .error .disabled
  | .hook c =>
    match s.machine.acting (.core c (.next false)) with
    | none => .error .disabled
    | some t =>
      match s.due t with
      | [] => .error .disabled
      | call :: calls => .ok { s with
          due := Function.update s.due t calls
          made := s.made ++ [call] }

def initial (cfg : Config) : Hooked where
  machine := Machine.initial cfg
  basePriority t := ((Machine.initial cfg).kernel.tcbs t).effectivePriority
  group _ := none
  due _ := []
  made := []

end Hooked

def hooked (cfg : Config) : Lts Hooked HookedLabel Fault where
  init s := s = Hooked.initial cfg
  step := Hooked.step cfg

def HookedLabel.Valid (cfg : Config) : HookedLabel → Prop
  | .step l => l.Valid cfg
  | .hook _ => True

instance (cfg : Config) : DecidablePred (HookedLabel.Valid cfg)
  | .step l => inferInstanceAs (Decidable (l.Valid cfg))
  | .hook _ => .isTrue trivial

/-! ## Waits and loops -/

/-- What a step of the machine does to the waits of all threads and to the loop of the thread
that takes it. -/
inductive HookMove (m : Machine) (a : Life) (l : Label) (m' : Machine) (a' : Life) : Prop
  | keep (hpc : ∀ t, m.acting l = some t →
      (∀ s y g, m.fiber t ≠ .teardown s y g) ∧ ∀ ws p, m'.fiber t ≠ .commence ws p)
    (hheld : ∀ t, (a'.phase t).held = (a.phase t).held)
  | block {t : ThreadRef} {ws : List WaitableRef} {p : Option Predicate}
    (hact : m.acting l = some t) (hpc : ∀ s y g, m.fiber t ≠ .teardown s y g)
    (hpc' : m'.fiber t = .commence ws p) (hphase : a.phase t = .running) (hnd : ws.Nodup)
    (hphase' : a'.phase = Function.update a.phase t (.waiting ws))
  | tearDown {t x : ThreadRef} {s : SignalCall} {ws : List WaitableRef}
    (hact : m.acting l = some t) (hpc : m.fiber t = .teardown s x x)
    (hpc' : m'.fiber t = .setReady s x) (hphase : a.phase x = .won t ws)
    (hphase' : a'.phase = Function.update a.phase x (.torn t))

/-- A step that neither blocks its thread nor tears a wait down leaves all waits alone. -/
theorem Trans.held (ht : Trans cfg m a l m' a') (h : Sim cfg m a)
    (hpc : ∀ t, m.acting l = some t →
      (∀ s y g, m.fiber t ≠ .teardown s y g) ∧ ∀ ws p, m'.fiber t ≠ .commence ws p)
    (t : ThreadRef) : (a'.phase t).held = (a.phase t).held := by
  cases ht.waitMove h t with
  | keep hwake hwaits hphase =>
    rcases hphase with hsame | ⟨hawake, hawake'⟩
    · rw [hsame]
    · rw [Phase.held_of_not_asleep hawake, Phase.held_of_not_asleep hawake']
  | block hwake hwaits hl hcore hcur hpc₀ hphase hphase' hpc' =>
    subst hl
    exact absurd hpc' ((hpc t (Machine.acting_core hcore hcur)).2 _ _)
  | win hwake hwaits hpc₀ howner hphase hphase' => rw [hphase, hphase']; rfl
  | tearDown hwake hwaits hphase hphase' =>
    obtain ⟨hact, hclaim⟩ := ht.tearDown_acting h hphase hphase'
    cases hfiber : m.fiber _ with
    | teardown s y g => exact absurd hfiber ((hpc _ hact).1 s y g)
    | _ => rw [hfiber] at hclaim; cases hclaim
  | wake hwake hwaits hphase hphase' =>
    rw [hphase, Phase.held_of_not_asleep hphase']
    rfl

theorem Trans.hookMove (ht : Trans cfg m a l m' a') (h : Sim cfg m a) : HookMove m a l m' a' := by
  have hheld := ht.held h
  have hthread : ∀ {c t act}, l = .core c act → m.core c = .thread →
      m.kernel.current c = some t → (∀ s y g, m.fiber t ≠ .teardown s y g) →
      (∀ ws p, m'.fiber t ≠ .commence ws p) → HookMove m a l m' a' := by
    intro c t act hl hcore hcur hpc hpc'
    subst hl
    have hboth : ∀ u, m.acting (.core c act) = some u →
        (∀ s y g, m.fiber u ≠ .teardown s y g) ∧ ∀ ws p, m'.fiber u ≠ .commence ws p := by
      intro u hu
      rw [Machine.acting_core hcore hcur] at hu
      cases hu
      exact ⟨hpc, hpc'⟩
    exact .keep hboth (hheld hboth)
  have hscheduler : m.acting l = none → HookMove m a l m' a' := by
    intro hact
    have hnone : ∀ u, m.acting l = some u →
        (∀ s y g, m.fiber u ≠ .teardown s y g) ∧ ∀ ws p, m'.fiber u ≠ .commence ws p := by
      intro u hu
      rw [hact] at hu
      cases hu
    exact .keep hnone (hheld hnone)
  cases ht with
  | constructBoot | start => exact hscheduler rfl
  | thread hcore hcur hs =>
    refine hthread rfl hcore hcur (fun s y g hpc => ?_) ?_
    · have hclaim := hs.points.claim
      rw [hpc] at hclaim
      cases hclaim
    · rw [hs.frame.fiber, Function.update_self]
      exact hs.points.commence'
  | construct hcore hcur hpc | ret hcore hcur hpc | terminate hcore hcur hpc
  | win hcore hcur hpc =>
    exact hthread rfl hcore hcur (by simp [hpc]) (by simp [Machine.goto])
  | @block c t act ws p links hcore hcur hpc hpos hlen hnd hsim =>
    have hnot : ∀ s y g, m.fiber t ≠ .teardown s y g := by
      rcases hpc with ⟨hpc, -⟩ | ⟨q, hpc, -⟩ <;> simp [hpc]
    have hrunning : a.phase t = .running := by
      rcases h.acting_phase hcore hcur with ⟨hr, -⟩ | ⟨-, ws, p, he⟩ | ⟨-, he⟩
      · exact hr
      · rcases hpc with ⟨hpc, -⟩ | ⟨q, hpc, -⟩ <;> rw [hpc] at he <;> cases he
      · rcases hpc with ⟨hpc, -⟩ | ⟨q, hpc, -⟩ <;> rw [hpc] at he <;> cases he
    exact .block (Machine.acting_core hcore hcur) hnot (Function.update_self ..) hrunning hnd rfl
  | tearDown hcore hcur hpc hx hsim =>
    exact .tearDown (Machine.acting_core hcore hcur) hpc (Function.update_self ..) hx rfl
  | ready hcore hcur hafter | post hcore hcur hafter =>
    have hf : ReadyFrame cfg _ _ _ _ _ _ _ _ := hafter.frame
    refine hthread rfl hcore hcur (fun s y g hpc => ?_) ?_
    · have hclaim := hf.claim
      rw [hpc] at hclaim
      cases hclaim
      exact hf.claim_ne rfl
    · rw [hf.fiber, Function.update_self]
      exact hf.commence'
  | boot hrun hc hcore | drainOne hcore | switch hc hcore =>
    exact hscheduler (by rw [Machine.acting, if_neg (by simp [hcore])])
  | coreMove hmove => exact hscheduler (by rw [Machine.acting, if_neg hmove.core.2])

/-! ## Steps of the system with hooks -/

section Steps

variable {s s' : Hooked}

theorem Hooked.step_machine (h : s.step cfg (.step l) = .ok s') :
    ∃ m, s.machine.step cfg l = .ok m ∧
      (s.machine.acting l = none ∧ s' = { s with machine := m, basePriority := s.baseAfter l } ∨
        ∃ t, s.machine.acting l = some t ∧ s.due t = [] ∧
          s' = { s with
            machine := m
            basePriority := s.baseAfter l
            group := Function.update s.group t (s.rereads t)
            due := Function.update s.due t (s.enters cfg t m) }) := by
  rw [Hooked.step] at h
  cases hact : s.machine.acting l with
  | none =>
    rw [hact] at h
    obtain ⟨m, hm, hs'⟩ := bind_ok.mp h
    cases hs'
    exact ⟨m, hm, .inl ⟨rfl, rfl⟩⟩
  | some t =>
    rw [hact] at h
    dsimp only at h
    split at h
    · next hdue =>
      obtain ⟨m, hm, hs'⟩ := bind_ok.mp h
      cases hs'
      exact ⟨m, hm, .inr ⟨t, rfl, hdue, rfl⟩⟩
    · cases h

theorem Hooked.step_hook (h : s.step cfg (.hook c) = .ok s') :
    ∃ t call calls, s.due t = call :: calls ∧
      s' = { s with due := Function.update s.due t calls, made := s.made ++ [call] } := by
  rw [Hooked.step] at h
  cases hact : s.machine.acting (.core c (.next false)) with
  | none =>
    rw [hact] at h
    cases h
  | some t =>
    rw [hact] at h
    dsimp only at h
    split at h
    · cases h
    · next call calls hdue =>
      cases h
      exact ⟨t, call, calls, hdue, rfl⟩

theorem Hooked.enters_nil (hpc : ∀ sig y g, s.machine.fiber t ≠ .teardown sig y g)
    (hpc' : ∀ ws p, m.fiber t ≠ .commence ws p) : s.enters cfg t m = [] := by
  rw [Hooked.enters]
  split
  · next hfiber => exact absurd hfiber (hpc _ _ _)
  · next hpoint _ => exact absurd hpoint (hpc' _ _)
  · rfl

theorem Hooked.enters_block {ws : List WaitableRef} {p : Option Predicate}
    (hpc : ∀ sig y g, s.machine.fiber t ≠ .teardown sig y g) (hpc' : m.fiber t = .commence ws p) :
    s.enters cfg t m = s.loop .onThreadBlocked t ws := by
  rw [Hooked.enters, hpc']
  split
  · next hfiber => exact absurd hfiber (hpc _ _ _)
  · next hpoint _ =>
    cases hpoint
    rfl
  · next hnot => exact absurd rfl (hnot ws p)

theorem Hooked.enters_tearDown {sig : SignalCall} {ws : List WaitableRef}
    (h : Sim cfg s.machine a) (hpc : s.machine.fiber t = .teardown sig x x)
    (hphase : a.phase x = .won u ws) (hgroup : s.group t = some x) :
    s.enters cfg t m = s.loop .onThreadRemoved x ws := by
  rw [Hooked.enters, hpc]
  dsimp only
  rw [hgroup, Hooked.removes, h.waiting.collectWaitables, hphase]
  rfl

/-- Whatever the group, the calls are about the thread that is removed. -/
theorem Hooked.mem_removes {g : Option ThreadRef} {call : HookCall}
    (hmem : call ∈ s.removes cfg x g) : call.thread = x ∧ call.waiter = s.createWaiter x := by
  unfold Hooked.removes at hmem
  split at hmem
  · cases hmem
  · split at hmem
    · obtain ⟨w, -, rfl⟩ := List.mem_map.mp hmem
      exact ⟨rfl, rfl⟩
    · cases hmem

/-- The states that are reached are simulated, as those of the system without hooks. -/
theorem Hooked.reach_sim (h : (hooked cfg).ReachVia (fun _ l => l.Valid cfg) s) :
    ∃ a, Sim cfg s.machine a := by
  refine h.invariant (I := fun s => ∃ a, Sim cfg s.machine a) (fun s hs => ?_)
    fun s l s' _ ⟨a, ha⟩ hvalid hstep => ?_
  · rw [show s = _ from hs]
    exact ⟨_, Sim.initial cfg⟩
  · cases l with
    | step l =>
      obtain ⟨m, hm, hcases⟩ := Hooked.step_machine hstep
      obtain ⟨a', ht⟩ := ha.trans hvalid hm
      rcases hcases with ⟨-, rfl⟩ | ⟨t, -, -, rfl⟩ <;> exact ⟨a', ht.sim ha⟩
    | hook c =>
      have hstep : s.step cfg (.hook c) = .ok s' := hstep
      obtain ⟨t, call, calls, -, rfl⟩ := Hooked.step_hook hstep
      exact ⟨a, ha⟩

end Steps

end Cortos
