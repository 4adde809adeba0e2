import Cortos.Machine.WaitCycle
import Cortos.Properties.Termination

/-!
# Joining a thread

`Thread::join` is `wait_until` on the `ThreadTermination` of the joined thread: an
unlocked check of its flag, then, under the lock of the waitable, the check again
and, if the flag is still down, `prepare_block`. The joined thread raises the flag
and then runs `signal_all`. A joiner that has found the flag down under the lock is
linked before the loop of `signal_all` can find the waitable empty.

- `join_no_lost_wakeup`: for threads that wait on nothing else, once `terminate()`
  has returned nobody is linked on the waitable, nobody blocks on it any more, and
  every joiner that has blocked has been woken exactly once.
-/

namespace Cortos

open Lib

variable {cfg : Config} {m m' : Machine} {a a' : Life} {c : Nat} {t x u j : ThreadRef}
  {J : ThreadRef → Prop} {W : ThreadRef → List WaitableRef × Option Predicate → Prop}

/-! ## Joiners -/

/-- `terminate()` has returned. -/
def ThreadPc.terminateReturned : ThreadPc → Bool
  | unregister | threadExit | finished => true
  | _ => false

/-- The threads in `J` are the joiners of `x`: a thread that makes a wait is in `J`
if and only if it waits on the termination of `x` alone. -/
def JoinersOnly (x : ThreadRef) (J : ThreadRef → Prop) (m : Machine) : Label → Prop
  | .core c act => ∀ t ∈ m.kernel.current c, ∀ w ∈ act.waitsOn, J t ↔ w.1 = [.termination x]
  | _ => True

instance [DecidablePred J] (m : Machine) : DecidablePred (JoinersOnly x J m)
  | .core c act => inferInstanceAs (Decidable (∀ t ∈ m.kernel.current c, ∀ w ∈ act.waitsOn, _))
  | .construct _ _ | .start => isTrue trivial

/-- The flag of the thread is up: it is past the compare-exchange of `terminate`. -/
def ThreadPc.flagged (pc : ThreadPc) : Bool := pc.exiting && pc != .terminate

theorem ThreadPc.flagged_of_terminateReturned {pc : ThreadPc}
    (h : pc.terminateReturned = true) : pc.flagged = true := by
  cases pc <;> simp_all [terminateReturned, flagged, exiting]

theorem Sim.flagged_iff (h : Sim cfg m a) (x : ThreadRef) :
    (m.kernel.tcbs x).terminated = true ↔ (m.fiber x).flagged = true := by
  rw [(h.thread x).terminated, ThreadPc.flagged, Bool.and_eq_true, bne_iff_ne]
  refine and_congr_left fun _ => ?_
  rw [← h.terminated_iff, (h.thread x).state]
  cases a.phase x <;> simp [Phase.state]

/-- The flag stays up. -/
theorem Trans.flagged {l : Label} (ht : Trans cfg m a l m' a')
    (hx : (m.fiber x).flagged = true) : (m'.fiber x).flagged = true := by
  -- a move of thread `t` to a point of the exit sequence behind `terminate`
  have hmove : ∀ {t pc}, m'.fiber = Function.update m.fiber t pc →
      (t = x → pc.flagged = true) → (m'.fiber x).flagged = true := by
    intro t pc hf hpc
    rw [hf]
    by_cases hxt : x = t
    · subst hxt
      rw [Function.update_self]
      exact hpc rfl
    · rwa [Function.update_of_ne hxt]
  have hpoint : ∀ {pc}, m.fiber x = pc → pc.flagged = true := fun hpc => hpc ▸ hx
  cases ht with
  | constructBoot hrun hd hprio => exact hx
  | start hrun hpos => exact hx
  | thread hcore hcur hs =>
    refine hmove hs.frame.fiber ?_
    rintro rfl
    rw [ThreadPc.flagged, Bool.and_eq_true] at hx
    rw [ThreadPc.flagged, hs.points.exiting, hx.1]
    simpa using hs.points.terminate'
  | construct hcore hcur hpc hd hprio =>
    refine hmove rfl ?_
    rintro rfl
    cases hpoint hpc
  | block hcore hcur hpc hpos hlen hnd hsim =>
    refine hmove rfl ?_
    rintro rfl
    rcases hpc with ⟨hpc, -⟩ | ⟨q, hpc, -⟩ <;> cases hpoint hpc
  | ret hcore hcur hpc =>
    refine hmove rfl ?_
    rintro rfl
    cases hpoint hpc
  | terminate hcore hcur hpc => exact hmove rfl fun _ => rfl
  | win hcore hcur hpc | tearDown hcore hcur hpc =>
    refine hmove rfl ?_
    rintro rfl
    simpa [ThreadPc.flagged, ThreadPc.exiting] using hpoint hpc
  | ready hcore hcur hafter | post hcore hcur hafter =>
    have hf : ReadyFrame cfg _ _ _ _ _ _ _ _ := hafter.frame
    refine hmove hf.fiber ?_
    rintro rfl
    rw [ThreadPc.flagged, Bool.and_eq_true] at hx
    rw [ThreadPc.flagged, hf.exiting, hx.1]
    simpa using hf.terminate'
  | boot | coreMove | drainOne | switch => exact hx

/-! ## What the points of a run with joiners look like -/

/-- The thread that a signal is about to wake. -/
def ThreadPc.target : ThreadPc → Option ThreadRef
  | wake _ n _ | tryWin _ n _ _ _ _ => some n.owner
  | teardown _ y _ | setReady _ y => some y
  | _ => none

/-- The signals that thread `u` makes: of an object, or, when it exits, `signal_all`
of its own termination. -/
def SignalCall.By (u : ThreadRef) (s : SignalCall) : Prop :=
  s.exiting = true ∧ s.all = true ∧ s.waitable = .termination u ∨
    s.exiting = false ∧ ∃ o, s.waitable = .object o

/-- A wait on the termination of `x` is a join. -/
def IsJoin (x : ThreadRef) (w : List WaitableRef × Option Predicate) : Prop :=
  .termination x ∈ w.1 → w = ([.termination x], some (.hasTerminated x))

theorem Act.isJoin {act : Act} {w : List WaitableRef × Option Predicate}
    (h : act.waitsOn = some w) : IsJoin x w := by
  intro hx
  obtain ⟨hws, hp⟩ := Act.waitsOn_termination h hx
  exact Prod.ext hws hp

/-- The waits that thread `u` makes when `J` are the joiners of `x`. -/
def JoinWait (x : ThreadRef) (J : ThreadRef → Prop) (u : ThreadRef)
    (w : List WaitableRef × Option Predicate) : Prop :=
  (J u ↔ w.1 = [.termination x]) ∧ IsJoin x w

/-- Thread `u` can be at this point when threads make the waits `W` and `J` are among
the joiners of `x`. -/
structure ThreadPc.Joining (W : ThreadRef → List WaitableRef × Option Predicate → Prop)
    (x : ThreadRef) (J : ThreadRef → Prop) (u : ThreadRef) (pc : ThreadPc) : Prop where
  waits : ∀ w ∈ pc.waitsOn, W u w
  signal : ∀ s ∈ pc.signal, s.By u
  target : ∀ s ∈ pc.signal, ∀ y ∈ pc.target, J y → s.waitable = .termination x

/-- A point outside of waits and signals. -/
theorem ThreadPc.Joining.outside {pc : ThreadPc} (hw : pc.waitsOn = none)
    (hs : pc.signal = none) : pc.Joining W x J u := by
  constructor <;> intro _ h
  · rw [hw] at h
    cases h
  · rw [hs] at h
    cases h
  · rw [hs] at h
    cases h

/-- A point of the same wait. -/
theorem ThreadPc.Joining.wait {pc pc' : ThreadPc} (h : pc.Joining W x J u)
    (hw : pc'.waitsOn = pc.waitsOn) (hs : pc'.signal = none) : pc'.Joining W x J u := by
  constructor
  · rw [hw]
    exact h.waits
  all_goals
    intro _ h'
    rw [hs] at h'
    cases h'

/-- A point of the same signal, about to wake the same thread or none. -/
theorem ThreadPc.Joining.signalling {pc pc' : ThreadPc} (h : pc.Joining W x J u)
    {s s' : SignalCall} (hs : pc.signal = some s) (hs' : pc'.signal = some s')
    (hsame : s'.exiting = s.exiting ∧ s'.all = s.all ∧ s'.waitable = s.waitable)
    (hw : pc'.waitsOn = none) (htarget : ∀ y ∈ pc'.target, y ∈ pc.target) :
    pc'.Joining W x J u := by
  obtain ⟨hex, hall, hwait⟩ := hsame
  constructor
  · intro w hmem
    rw [hw] at hmem
    cases hmem
  · intro s₁ hmem
    obtain rfl : s' = s₁ := Option.some.inj (hs'.symm.trans hmem)
    rw [SignalCall.By, hex, hall, hwait]
    exact h.signal s hs
  · intro s₁ hmem y hy hJ
    obtain rfl : s' = s₁ := Option.some.inj (hs'.symm.trans hmem)
    rw [hwait]
    exact h.target s hs y (htarget y hy) hJ

theorem SignalCall.ret_joining (s : SignalCall) : s.ret.Joining W x J u := by
  rcases s.ret_cases with hr | hr <;> rw [hr] <;> exact .outside rfl rfl

/-- Where a signal goes after a wake. -/
theorem ThreadPc.Joining.next {pc : ThreadPc} (h : pc.Joining W x J u) {s s' : SignalCall}
    (hs : pc.signal = some s)
    (hsame : s'.exiting = s.exiting ∧ s'.all = s.all ∧ s'.waitable = s.waitable) :
    (if s.all then ThreadPc.pick s' else s.ret).Joining W x J u := by
  split
  · exact h.signalling hs rfl hsame rfl nofun
  · exact s.ret_joining

/-- A joiner that is linked on a waitable is linked on the termination of `x`. -/
theorem Sim.joiner_waitable (h : Sim cfg m a) (hI : ∀ u, (m.fiber u).Joining W x J u)
    (hW : ∀ u w, W u w → J u → w.1 = [.termination x]) {n : NodeRef} {w : WaitableRef}
    (hn : n ∈ a.waiters w) (hJ : J n.owner) : w = .termination x := by
  obtain ⟨ws, p, hpc, hw⟩ := h.waiting_fiber hn
  have hon : (m.fiber n.owner).waitsOn = some (ws, p) := by
    rcases hpc with hpc | hpc <;> rw [hpc] <;> rfl
  have hws : ws = [.termination x] := hW n.owner _ ((hI n.owner).waits _ hon) hJ
  rw [hws, List.getElem?_singleton] at hw
  split at hw
  · exact (Option.some.inj hw).symm
  · cases hw

theorem LocalStep.joining (h : Sim cfg m a) (hI : ∀ u, (m.fiber u).Joining W x J u)
    (hW : ∀ u w, W u w → J u → w.1 = [.termination x]) {act : Act} {pc : ThreadPc}
    (hs : LocalStep cfg m a c t act pc m')
    (hcall : m.fiber t = .user → ∀ w ∈ pc.waitsOn, W t w) : pc.Joining W x J t := by
  have hold := hI t
  cases hs with
  | signal hpc hact =>
    refine ⟨nofun, ?_, nofun⟩
    rintro _ ⟨⟩
    exact .inr ⟨rfl, _, rfl⟩
  | waitUntil hpc hpos hlen => exact ⟨hcall hpc, nofun, nofun⟩
  | @pickNone b s hpc hnone => exact s.ret_joining
  | @pickSome b s n hpc hbest =>
    rw [hpc] at hold
    refine ⟨nofun, ?_, ?_⟩
    · rintro _ ⟨⟩
      exact hold.signal s rfl
    · rintro _ ⟨⟩ _ ⟨⟩ hJ
      exact h.joiner_waitable hI hW (List.mem_of_mem_filter (List.argmin_mem hbest)) hJ
  | wake hpc hheld =>
    rw [hpc] at hold
    exact hold.signalling rfl rfl ⟨rfl, rfl, rfl⟩ rfl fun y hy => hy
  | lost hpc hdone =>
    rw [hpc] at hold
    exact hold.next rfl ⟨rfl, rfl, rfl⟩
  | commence hpc =>
    rw [hpc] at hold
    exact hold.wait rfl rfl
  | @waitReturn b ws p hpc =>
    rw [hpc] at hold
    cases p with
    | none => exact .outside rfl rfl
    | some p => exact hold.wait rfl rfl
  | spin hpc => split <;> exact .outside rfl rfl
  | _ => exact .outside rfl rfl

/-- **Step lemma** for the points: the calls make the waits `W`. -/
theorem Trans.joining {l : Label} (ht : Trans cfg m a l m' a') (h : Sim cfg m a)
    (hs : m.step cfg l = .ok m') (hW : ∀ u w, W u w → J u → w.1 = [.termination x])
    (hl : ∀ c act t, l = .core c act → m.kernel.current c = some t →
      ∀ w ∈ act.waitsOn, W t w)
    (hI : ∀ u, (m.fiber u).Joining W x J u) : ∀ u, (m'.fiber u).Joining W x J u := by
  have hmove : ∀ {t pc}, m'.fiber = Function.update m.fiber t pc → pc.Joining W x J t →
      ∀ u, (m'.fiber u).Joining W x J u := by
    intro t pc hf hpc u
    rw [hf]
    by_cases hu : u = t
    · subst hu
      rwa [Function.update_self]
    · rw [Function.update_of_ne hu]
      exact hI u
  -- a call enters the wait that the call describes
  have hcall : ∀ {c act t}, l = .core c act → m.core c = .thread → m.kernel.current c = some t →
      m.fiber t = .user → ∀ w ∈ (m'.fiber t).waitsOn, W t w := by
    rintro c act t rfl hcore hcur hpc w hw
    have hon := Machine.call_waitsOn hpc (Machine.step_call hcore hcur hpc hs) hw
    exact hl c act t rfl hcur w hon
  cases ht with
  | constructBoot hrun hd hprio => exact hI
  | start hrun hpos => exact hI
  | @thread c t act pc m' hcore hcur hs' =>
    refine hmove hs'.frame.fiber (hs'.joining h hI hW fun hpc => ?_)
    have := hcall rfl hcore hcur hpc
    rwa [hs'.frame.fiber, Function.update_self] at this
  | construct hcore hcur hpc hd hprio => exact hmove rfl (.outside rfl rfl)
  | @block c t act ws p links hcore hcur hpc hpos hlen hnd hsim =>
    refine hmove rfl ?_
    rcases hpc with ⟨hpc, rfl⟩ | ⟨q, hpc, rfl⟩
    · have := hcall rfl hcore hcur hpc
      simp only [Machine.goto, Function.update_self] at this
      exact ⟨this, by rintro _ ⟨⟩, by rintro _ ⟨⟩⟩
    · have hold := hI t
      rw [hpc] at hold
      exact hold.wait rfl rfl
  | ret hcore hcur hpc => exact hmove rfl (.outside rfl rfl)
  | terminate hcore hcur hpc =>
    refine hmove rfl ⟨by rintro _ ⟨⟩, ?_, by rintro _ ⟨⟩ _ ⟨⟩⟩
    rintro _ ⟨⟩
    exact .inl ⟨rfl, rfl, rfl⟩
  | @win c t b s n wait i ws hcore hcur hpc hx
  | @tearDown c t y b s ws links hcore hcur hpc hx hsim =>
    have hold := hI t
    rw [hpc] at hold
    exact hmove rfl (hold.signalling rfl rfl ⟨rfl, rfl, rfl⟩ rfl fun y hy => hy)
  | @ready c t y b κ pc m' hcore hcur hafter hpin
  | @post c t y b κ pc m' hcore hcur hafter hpin hroom =>
    have hf : ReadyFrame cfg _ _ _ _ _ _ _ _ := hafter.frame
    refine hmove hf.fiber ?_
    have hold := hI t
    cases hafter with
    | register hpc => exact .outside rfl rfl
    | setReady hpc hs' =>
      rw [hpc] at hold
      exact hold.next rfl (by rw [hs']; exact ⟨rfl, rfl, rfl⟩)
  | boot | coreMove | drainOne | switch => exact hI

/-! ## Who is linked on a termination -/

/-- A thread that is linked on the termination of `x` is in a join of it. -/
theorem Sim.held_termination (h : Sim cfg m a) (hI : ∀ u, (m.fiber u).Joining W x J u)
    (hW : ∀ u w, W u w → IsJoin x w) (hheld : .termination x ∈ (a.phase j).held) :
    (a.phase j).held = [.termination x] ∧ ∃ p, W j ([.termination x], p) := by
  have hadm := (h.thread j).admits
  have hon : ∃ p, (m.fiber j).waitsOn = some ((a.phase j).held, p) := by
    cases hp : a.phase j <;> simp only [hp, Phase.held] at hheld ⊢ <;>
      first
      | exact absurd hheld List.not_mem_nil
      | (cases hpc : m.fiber j <;>
          simp_all [Phase.admits, ThreadPc.blockedOn, ThreadPc.waitsOn])
  obtain ⟨p, hp⟩ := hon
  have hwait := (hI j).waits _ hp
  have hws : (a.phase j).held = [.termination x] := congrArg Prod.fst (hW j _ hwait hheld)
  exact ⟨hws, p, hws ▸ hwait⟩

/-- A step that blocks a thread on the termination of `x` finds the flag down. -/
theorem Sim.block_flag {act : Act} {ws : List WaitableRef} {p : Option Predicate}
    (h : Sim cfg m a) (hs : m.step cfg (.core c act) = .ok m')
    (hcore : m.core c = .thread) (hcur : m.kernel.current c = some j)
    (hpc : m.fiber j = .user ∧ p = none ∨ ∃ q, m.fiber j = .evaluate ws q ∧ p = some q)
    (hpc' : m'.fiber j = .commence ws p) (hI : (m.fiber j).Joining W x J j)
    (hW : ∀ u w, W u w → IsJoin x w) (hx : .termination x ∈ ws) :
    (m.fiber x).flagged = false := by
  rcases hpc with ⟨hpc, rfl⟩ | ⟨q, hpc, rfl⟩
  · -- `wait_for_any` is not called on a termination
    have hon : act.waitsOn = some (ws, none) :=
      Machine.call_waitsOn hpc (Machine.step_call hcore hcur hpc hs) (by rw [hpc']; rfl)
    cases (Act.waitsOn_termination hon hx).2
  · have hq : (ws, some q) = ([.termination x], some (.hasTerminated x)) :=
      hW j _ (hI.waits (ws, some q) (by rw [hpc]; rfl)) hx
    obtain rfl : q = .hasTerminated x := Option.some.inj (congrArg Prod.snd hq)
    obtain ⟨b, -, hfalse⟩ := Machine.step_blocks hcore hcur hpc hs hpc'
    have : ¬ (m.fiber x).flagged = true := by
      rw [← h.flagged_iff x]
      simpa [Machine.holds] using hfalse
    simpa using this

/-- `terminate()` returns from a `pick_best` that finds no waiter. -/
theorem Trans.terminateReturned {l : Label} (ht : Trans cfg m a l m' a')
    (hI : ∀ u, (m.fiber u).Joining W x J u) (hold : (m.fiber x).terminateReturned = false)
    (hnew : (m'.fiber x).terminateReturned = true) :
    a' = a ∧ ∃ s, m.fiber x = .pick s ∧
      WaitRep.eligible m.kernel (a.waiters (.termination x)) = [] := by
  -- the moving thread is `x`, and it goes to a point behind `terminate()`
  have hmove : ∀ {t pc}, m'.fiber = Function.update m.fiber t pc →
      t = x ∧ pc.terminateReturned = true := by
    intro t pc hf
    rw [hf] at hnew
    by_cases hx : x = t
    · subst hx
      rw [Function.update_self] at hnew
      exact ⟨rfl, hnew⟩
    · rw [Function.update_of_ne hx, hold] at hnew
      cases hnew
  have hsame : m'.fiber = m.fiber → False := fun hf => by
    rw [hf, hold] at hnew
    cases hnew
  -- the exit sequence calls `signal_all`, so it does not return after a wake
  have hnext : ∀ {pc s s'}, (m.fiber x).signal = some s →
      pc = (if s.all then ThreadPc.pick s' else s.ret) → pc.terminateReturned = false := by
    rintro pc s s' hs rfl
    rcases (hI x).signal s hs with ⟨-, hall, -⟩ | ⟨hex, -⟩
    · rw [if_pos hall]
      rfl
    · split
      · rfl
      · rw [SignalCall.ret, hex]
        rfl
  have hafter : ∀ {c t k resched y κ pc}, AfterReady m c t k resched y κ pc m' → False := by
    intro c t k resched y κ pc hafter
    have hf : ReadyFrame cfg m c t k y κ pc m' := hafter.frame
    obtain ⟨rfl, hpc⟩ := hmove hf.fiber
    cases hafter with
    | register hpc' => cases hpc
    | setReady hpc' hs =>
      rw [hnext (by rw [hpc']; rfl) rfl] at hpc
      cases hpc
  cases ht with
  | thread hcore hcur hs =>
    obtain ⟨rfl, hpc⟩ := hmove hs.frame.fiber
    cases hs with
    | @pickNone b s hpick hnone =>
      refine ⟨rfl, s, hpick, ?_⟩
      rcases (hI _).signal s (by rw [hpick]; rfl) with ⟨-, -, hw⟩ | ⟨hex, -⟩
      · rwa [hw] at hnone
      · rw [SignalCall.ret, hex] at hpc
        cases hpc
    | @lost b s n wait i tcb g hwin hdone =>
      rw [hnext (by rw [hwin]; rfl) rfl] at hpc
      cases hpc
    | @waitReturn b ws p hw => cases p <;> cases hpc
    | spin hspin => split at hpc <;> cases hpc
    | unregisterIdle hun | unregister hun | threadExit hun =>
      rw [hun] at hold
      cases hold
    | _ => cases hpc
  | constructBoot hrun hd hprio => exact (hsame rfl).elim
  | start hrun hpos => exact (hsame rfl).elim
  | construct | block | ret | terminate | win | tearDown => cases (hmove rfl).2
  | ready hcore hcur hafter' hpin => exact (hafter hafter').elim
  | post hcore hcur hafter' hpin hroom => exact (hafter hafter').elim
  | boot | coreMove | drainOne | switch => exact (hsame rfl).elim

/-- When `pick_best` finds no waiter of the termination of `x`, nobody is linked on
it: a linked thread whose group is won is being torn down, and only `x` does that. -/
theorem Sim.nobody_linked (h : Sim cfg m a) (hI : ∀ u, (m.fiber u).Joining W x J u)
    (hW : ∀ u w, W u w → IsJoin x w)
    (hwon : ∀ j v ws, a.phase j = .won v ws → .termination x ∈ ws → v = x)
    {s : SignalCall} (hpc : m.fiber x = .pick s)
    (hnone : WaitRep.eligible m.kernel (a.waiters (.termination x)) = []) (j : ThreadRef) :
    .termination x ∉ (a.phase j).held := by
  intro hheld
  obtain ⟨hws, -⟩ := h.held_termination hI hW hheld
  cases hp : a.phase j with
  | waiting ws =>
    rw [hp] at hws
    have hmem : (⟨j, 0⟩ : NodeRef) ∈ a.waiters (.termination x) := by
      refine (h.waiting.mem _ ⟨j, 0⟩).mpr ?_
      show (a.phase j).held[0]? = _
      rw [hp, hws]
      rfl
    have hdone := (h.thread j).waiting_done (by rw [hp]; rfl)
    have : (⟨j, 0⟩ : NodeRef) ∈ WaitRep.eligible m.kernel (a.waiters (.termination x)) :=
      List.mem_filter.mpr ⟨hmem, by simp [hdone]⟩
    rw [hnone] at this
    cases this
  | won v ws =>
    have hclaim := (h.claims j v .tearDown).mpr (by rw [hp]; rfl)
    rw [hp] at hheld
    obtain rfl := hwon j v ws hp hheld
    rw [hpc] at hclaim
    cases hclaim
  | _ =>
    rw [hp] at hheld
    cases hheld

/-- Nobody is linked on the termination of `x` once `terminate()` has returned. -/
def TerminationLeft (x : ThreadRef) (m : Machine) (a : Life) : Prop :=
  (m.fiber x).terminateReturned = true → ∀ j, .termination x ∉ (a.phase j).held

theorem TerminationLeft.initial (cfg : Config) (x : ThreadRef) :
    TerminationLeft x (Machine.initial cfg) (Life.initial cfg) := by
  intro h
  cases x <;> cases h

/-- **Step lemma**: the last `pick_best` of `terminate()` finds nobody linked, and a
thread that tests the flag later does not block. -/
theorem TerminationLeft.step {l : Label} (hempty : TerminationLeft x m a) (h : Sim cfg m a)
    (ht : Trans cfg m a l m' a') (hs : m.step cfg l = .ok m')
    (hI : ∀ u, (m.fiber u).Joining W x J u) (hW : ∀ u w, W u w → IsJoin x w)
    (hwon : ∀ j v ws, a.phase j = .won v ws → .termination x ∈ ws → v = x) :
    TerminationLeft x m' a' := by
  intro hret j hheld
  cases hold : (m.fiber x).terminateReturned with
  | false =>
    obtain ⟨rfl, s, hpc, hnone⟩ := ht.terminateReturned hI hold hret
    exact h.nobody_linked hI hW hwon hpc hnone j hheld
  | true =>
    have hempty := hempty hold j
    have hup := ThreadPc.flagged_of_terminateReturned hold
    cases ht.waitMove h j with
    | keep hwake hwaits hphase =>
      rcases hphase with hp | ⟨-, hp⟩
      · rw [hp] at hheld
        exact hempty hheld
      · cases hpj : a'.phase j <;> simp_all [Phase.held, Phase.asleep]
    | @block c act ws p hwake hwaits hl' hcore hcur hpc hphase hphase' hpc' =>
      subst hl'
      rw [hphase'] at hheld
      have hdown := h.block_flag hs hcore hcur hpc hpc' (hI j) hW hheld
      rw [hup] at hdown
      cases hdown
    | win hwake hwaits hpc howner hphase hphase' =>
      rw [hphase] at hempty
      rw [hphase'] at hheld
      exact hempty hheld
    | tearDown hwake hwaits hphase hphase' =>
      rw [hphase'] at hheld
      cases hheld
    | wake hwake hwaits hphase hphase' =>
      cases hpj : a'.phase j <;> simp_all [Phase.held, Phase.asleep]

/-! ## The invariant -/

/-- What holds in a run in which `J` are the joiners of `x`: a joiner blocks once at
most, and not before `x` raises its flag if it is awake; and when `terminate()` has
returned, nobody is linked on the termination of `x`. -/
structure JoinInv (x : ThreadRef) (J : ThreadRef → Prop) (m : Machine) (a : Life) : Prop where
  points : ∀ u, (m.fiber u).Joining (JoinWait x J) x J u
  once : ∀ j, J j → m.waits j ≤ 1
  early : ∀ j, J j → (m.fiber x).flagged = false →
    m.waits j = 0 ∨ (a.phase j).isWaiting = true
  empty : TerminationLeft x m a

/-- The only signaller of a joiner is `x`, on its way out. -/
theorem ThreadPc.Joining.flagged (h : (m.fiber u).Joining W x J u) {s : SignalCall}
    (hs : (m.fiber u).signal = some s) (hy : (m.fiber u).target = some j) (hJ : J j) :
    u = x ∧ (m.fiber x).flagged = true := by
  have hw := h.target s hs j hy hJ
  rcases h.signal s hs with ⟨hex, -, hu⟩ | ⟨-, o, ho⟩
  · obtain rfl : u = x := by
      rw [hw] at hu
      exact (WaitableRef.termination.inj hu).symm
    refine ⟨rfl, ?_⟩
    cases hpc : m.fiber u <;> simp_all [ThreadPc.signal, ThreadPc.flagged, ThreadPc.exiting]
  · rw [hw] at ho
    cases ho

/-- The wait of a joiner is won by `x`. -/
theorem JoinInv.winner (hI : JoinInv x J m a) (h : Sim cfg m a) {v : ThreadRef}
    {ws : List WaitableRef} (hp : a.phase j = .won v ws) (hx : .termination x ∈ ws) : v = x := by
  obtain ⟨-, p, hwait⟩ := h.held_termination hI.points (fun _ _ hw => hw.2) (j := j)
    (by rw [hp]; exact hx)
  have hJ : J j := hwait.1.mpr rfl
  have hclaim := (h.claims j v .tearDown).mpr (by rw [hp]; rfl)
  have htarget : (m.fiber v).target = some j ∧ ∃ s, (m.fiber v).signal = some s := by
    cases hpv : m.fiber v <;> simp_all [ThreadPc.claim, ThreadPc.target, ThreadPc.signal]
  obtain ⟨htarget, s, hs⟩ := htarget
  exact ((hI.points v).flagged hs htarget hJ).1

/-- **Step lemma** for joins. -/
theorem JoinInv.step {l : Label} (hI : JoinInv x J m a) (h : Sim cfg m a)
    (ht : Trans cfg m a l m' a') (hs : m.step cfg l = .ok m') (hl : JoinersOnly x J m l) :
    JoinInv x J m' a' := by
  have hpoints : ∀ u, (m'.fiber u).Joining (JoinWait x J) x J u := by
    refine ht.joining h hs (fun _ _ hw => hw.1.mp) ?_ hI.points
    rintro c act t rfl hcur w hw
    exact ⟨hl t hcur w hw, Act.isJoin hw⟩
  have hflag : (m'.fiber x).flagged = false → (m.fiber x).flagged = false := by
    intro hf
    cases hx : (m.fiber x).flagged with
    | false => rfl
    | true => rw [ht.flagged hx] at hf; cases hf
  refine ⟨hpoints, ?_, ?_, hI.empty.step h ht hs hI.points (fun _ _ hw => hw.2)
    fun j v ws => hI.winner h⟩
  · intro j hJ
    have honce := hI.once j hJ
    cases ht.waitMove h j with
    | keep hwake hwaits hphase => omega
    | @block c act ws p hwake hwaits hl' hcore hcur hpc hphase hphase' hpc' =>
      subst hl'
      have hws : ws = [.termination x] :=
        ((hpoints j).waits (ws, p) (by rw [hpc']; rfl)).1.mp hJ
      have hdown := h.block_flag hs hcore hcur hpc hpc' (hI.points j) (fun _ _ hw => hw.2)
        (by simp [hws])
      rcases hI.early j hJ hdown with hz | hw
      · omega
      · rw [hphase] at hw
        cases hw
    | win | tearDown | wake => omega
  · intro j hJ hf
    have hearly := hI.early j hJ (hflag hf)
    cases ht.waitMove h j with
    | keep hwake hwaits hphase =>
      rw [hwaits]
      rcases hphase with hp | ⟨hp, -⟩
      · rwa [hp]
      · refine hearly.imp_right fun hw => ?_
        cases hpj : a.phase j <;> simp_all [Phase.isWaiting, Phase.asleep]
    | block hwake hwaits hl' hcore hcur hpc hphase hphase' hpc' =>
      rw [hphase']
      exact .inr rfl
    | @win v s n wait i ws hwake hwaits hpc howner hphase hphase' =>
      -- the winner would be `x`, whose flag is up
      have hup := ((hI.points v).flagged (s := s) (by rw [hpc]; rfl)
        (by rw [hpc, ← howner]; rfl) hJ).2
      rw [hflag hf] at hup
      cases hup
    | tearDown hwake hwaits hphase | wake hwake hwaits hphase =>
      rw [hwaits]
      refine hearly.imp_right fun hw => ?_
      rw [hphase] at hw
      cases hw

theorem JoinInv.initial (cfg : Config) (x : ThreadRef) (J : ThreadRef → Prop) :
    JoinInv x J (Machine.initial cfg) (Life.initial cfg) where
  points u := by cases u <;> exact .outside rfl rfl
  once j _ := Nat.zero_le 1
  early j _ _ := .inl rfl
  empty := .initial cfg x

/-! ## The theorem -/

/-- When `terminate()` has returned, no joiner is asleep. -/
theorem JoinInv.awake (hI : JoinInv x J m a) (h : Sim cfg m a)
    (hret : (m.fiber x).terminateReturned = true) (hJ : J j) : ¬ m.Asleep j := by
  rw [h.asleep_iff]
  have hwaits : ∀ ws, (a.phase j).held = ws → (m.fiber j).blockedOn ws = true → False := by
    intro ws hheld hon
    have hw : ∃ p, (m.fiber j).waitsOn = some (ws, p) := by
      cases hpc : m.fiber j <;> simp_all [ThreadPc.blockedOn, ThreadPc.waitsOn]
    obtain ⟨p, hp⟩ := hw
    refine hI.empty hret j ?_
    have hws : ws = [.termination x] := ((hI.points j).waits _ hp).1.mp hJ
    rw [hheld, hws]
    exact List.mem_singleton_self _
  have hadm := (h.thread j).admits
  intro hasleep
  cases hp : a.phase j with
  | waiting ws | won v ws =>
    rw [hp] at hadm
    exact hwaits ws (by rw [hp]; rfl) hadm
  | torn v =>
    -- the thread that has torn it down is `x`, which is not in a signal any more
    have hclaim := (h.claims j v .wakeUp).mpr (by rw [hp]; rfl)
    have htarget : (m.fiber v).target = some j ∧ ∃ s, (m.fiber v).signal = some s := by
      cases hpv : m.fiber v <;> simp_all [ThreadPc.claim, ThreadPc.target, ThreadPc.signal]
    obtain ⟨htarget, s, hs⟩ := htarget
    obtain ⟨rfl, -⟩ := (hI.points v).flagged hs htarget hJ
    cases hpc : m.fiber v <;> simp_all [ThreadPc.terminateReturned, ThreadPc.target]
  | _ =>
    rw [hp] at hasleep
    cases hasleep

/-- **Join without lost wakeup**: in a run in which `J` are the joiners of `x` and wait
on nothing else, once `terminate()` has returned no wait node is on the termination
of `x`, no further step blocks a thread on it, and every joiner that has blocked has
been woken exactly once. -/
theorem join_no_lost_wakeup {N : Nat} (r : (system cfg).Run N)
    (hr : ∀ i < N, (r.label i).Valid cfg ∧ JoinersOnly x J (r.state i) (r.label i))
    (hret : ((r.state N).fiber x).terminateReturned = true) :
    (∀ n, ((r.state N).kernel.node n).active = true →
      ((r.state N).kernel.node n).waitable ≠ some (.termination x)) ∧
    (∀ l m', l.Valid cfg → (r.state N).step cfg l = .ok m' →
      ∀ t ws p, m'.fiber t = .commence ws p → .termination x ∈ ws →
        (r.state N).fiber t = .commence ws p) ∧
    (∀ j, J j → 0 < (r.state N).waits j → wakeCount r j N = 1) := by
  obtain ⟨a, h, hI⟩ := run_invariant (C := fun m l => l.Valid cfg ∧ JoinersOnly x J m l)
    (fun _ _ hc => hc.1) r hr (I := fun _ m a => JoinInv x J m a) (JoinInv.initial cfg x J)
    (fun hi ha hI ht => hI.step ha ht (r.next _ hi) (hr _ hi).2) N (Nat.le_refl N)
  refine ⟨?_, ?_, ?_⟩
  · intro n _ hw
    rw [h.waiting.node_eq] at hw
    exact hI.empty hret n.owner (List.mem_of_getElem? hw)
  · intro l m' hvalid hs t ws p hpc hx
    obtain ⟨a', ht⟩ := h.trans hvalid hs
    refine (ht.commence hpc).resolve_right ?_
    rintro ⟨c, act, rfl, hcore, hcur, hold⟩
    have hdown := h.block_flag hs hcore hcur hold hpc (hI.points t) (fun _ _ hw => hw.2) hx
    rw [ThreadPc.flagged_of_terminateReturned hret] at hdown
    cases hdown
  · intro j hJ hpos
    have hcount := wakes_count r (fun i hi => (hr i hi).1) j N (Nat.le_refl N)
    rw [if_neg (hI.awake h hret hJ)] at hcount
    have := hI.once j hJ
    omega

/-- Threads 1 and 2, on different cores, join thread 0, which then returns. -/
def twoJoiners : (system twoCores).Run 38 :=
  .ofLabels (Machine.initial twoCores)
    (List.flatten [[.construct 5 1#32, .construct 5 1#32, .construct 5 2#32, .start],
      steps 0 1, steps 1 1, [.core 0 .yield], steps 0 4, [.core 0 (.join 0)], steps 0 6,
      [.core 1 (.join 0)], steps 1 6, [.core 0 .ret], steps 0 12])
    .start (by exact system_init twoCores) (by decide +kernel)

theorem join_no_lost_wakeup_two :
    ((twoJoiners.state 38).fiber (.user 0) = .unregister ∧
      (twoJoiners.state 38).waits (.user 1) = 1 ∧ (twoJoiners.state 38).waits (.user 2) = 1) ∧
    wakeCount twoJoiners (.user 1) 38 = 1 ∧ wakeCount twoJoiners (.user 2) 38 = 1 := by
  have hr : ∀ i < 38, (twoJoiners.label i).Valid twoCores ∧
      JoinersOnly (.user 0) (fun t => t = .user 1 ∨ t = .user 2) (twoJoiners.state i)
        (twoJoiners.label i) := by decide +kernel
  have hlast : (twoJoiners.state 38).fiber (.user 0) = .unregister ∧
      (twoJoiners.state 38).waits (.user 1) = 1 ∧
      (twoJoiners.state 38).waits (.user 2) = 1 := by decide +kernel
  obtain ⟨hret, h1, h2⟩ := hlast
  obtain ⟨-, -, hwoken⟩ := join_no_lost_wakeup twoJoiners hr (by rw [hret]; rfl)
  exact ⟨⟨hret, h1, h2⟩, hwoken _ (.inl rfl) (by rw [h1]; decide),
    hwoken _ (.inr rfl) (by rw [h2]; decide)⟩

end Cortos
