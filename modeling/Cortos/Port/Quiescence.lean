import Cortos.Port.Contexts
import Cortos.Port.LinuxBoost

/-!
# Cores in a quiescent system

A core leaves its pump loop when it reads that only the idle contexts are left. The cores
that are in `cortos_port_idle` at that time have to be woken up to look at the count again.

- `Past s e`: core `e` is on its way out. It has consumed a pending bit, or is at the test
  of the pump loop, or has left it. While the system is quiescent it never sleeps again.
- `Alerted s e`: the bit of core `e` is set, or `e` is past. The store of a poke brings this
  about, and it stays, because only `e` itself takes the bit.
- `Roused s e`: `e` is past, or its bit is set and it is not asleep. The signal of the poke
  brings this about: it is sent under the mutex, so `e` is not between its last look at the
  bit and its sleep.
-/

namespace Cortos

open Lib Port

variable {cfg : Config} {s s' : PortState} {m m' : Machine} {a a' : Life} {c d e : Nat}

/-! ## Mutexes -/

/-- Core `c`, at this point, holds the mutex of core `d`. -/
def Port.PortPc.holds (c d : Nat) : PortPc → Bool
  | .check | .wait | .unlock => c = d
  | .poke target .signal _ | .poke target .unlock _ => target = d
  | _ => false

/-- A mutex that somebody holds is locked, and only one core holds it. -/
def MutexOk (port : Nat → PortPc) (mutex : Nat → Bool) : Prop :=
  ∀ c d, (port c).holds c d = true →
    mutex d = true ∧ ∀ c', (port c').holds c' d = true → c' = c

namespace MutexOk

variable {port : Nat → PortPc} {mutex : Nat → Bool} {pc : PortPc}

/-- A core moves without taking a mutex. -/
theorem move (h : MutexOk port mutex) (hpc : ∀ d, pc.holds c d = true → (port c).holds c d = true) :
    MutexOk (Function.update port c pc) mutex := by
  have hold : ∀ c' d, (Function.update port c pc c').holds c' d = true →
      (port c').holds c' d = true := fun c' d hheld => by
    by_cases hc : c' = c
    · subst hc
      rw [Function.update_self] at hheld
      exact hpc d hheld
    · rwa [Function.update_of_ne hc] at hheld
  intro c' d hheld
  obtain ⟨hlocked, honly⟩ := h c' d (hold c' d hheld)
  exact ⟨hlocked, fun c'' hheld' => honly c'' (hold c'' d hheld')⟩

/-- `pthread_mutex_lock`. -/
theorem acquire (h : MutexOk port mutex) (hfree : mutex d = false)
    (hpc : ∀ d', pc.holds c d' = true → d' = d) :
    MutexOk (Function.update port c pc) (Function.update mutex d true) := by
  have hother : ∀ c' d', c' ≠ c → (Function.update port c pc c').holds c' d' = true →
      (port c').holds c' d' = true ∧ d' ≠ d := fun c' d' hc hheld => by
    rw [Function.update_of_ne hc] at hheld
    refine ⟨hheld, fun hd => ?_⟩
    rw [hd] at hheld
    rw [(h c' d hheld).1] at hfree
    cases hfree
  have hself : ∀ d', (Function.update port c pc c).holds c d' = true → d' = d := fun d' hheld => by
    rw [Function.update_self] at hheld
    exact hpc d' hheld
  intro c' d' hheld
  by_cases hc : c' = c
  · rw [hc] at hheld ⊢
    rw [hself d' hheld]
    refine ⟨Function.update_self .., fun c'' hheld' => ?_⟩
    by_contra hne
    exact (hother c'' d hne hheld').2 rfl
  · obtain ⟨hold, hd⟩ := hother c' d' hc hheld
    refine ⟨(Function.update_of_ne hd ..).trans (h c' d' hold).1, fun c'' hheld' => ?_⟩
    by_cases hc' : c'' = c
    · rw [hc'] at hheld'
      exact absurd (hself d' hheld') hd
    · exact (h c' d' hold).2 c'' (hother c'' d' hc' hheld').1

/-- `pthread_mutex_unlock`. -/
theorem release (h : MutexOk port mutex) (hheld : (port c).holds c d = true)
    (hpc : ∀ d', pc.holds c d' = false) :
    MutexOk (Function.update port c pc) (Function.update mutex d false) := by
  have hother : ∀ c' d', (Function.update port c pc c').holds c' d' = true →
      c' ≠ c ∧ (port c').holds c' d' = true := fun c' d' hheld' => by
    by_cases hc : c' = c
    · rw [hc, Function.update_self, hpc] at hheld'
      cases hheld'
    · rw [Function.update_of_ne hc] at hheld'
      exact ⟨hc, hheld'⟩
  intro c' d' hheld'
  obtain ⟨hc, hold⟩ := hother c' d' hheld'
  have hd : d' ≠ d := fun hd => hc ((h c d hheld).2 c' (hd ▸ hold))
  exact ⟨(Function.update_of_ne hd ..).trans (h c' d' hold).1,
    fun c'' hheld'' => (h c' d' hold).2 c'' (hother c'' d' hheld'').2⟩

end MutexOk

/-- A signal wakes only a core that is asleep. -/
theorem PortState.wake_port (s : PortState) (d e : Nat) :
    (s.wake d).port e = s.port e ∨ s.port e = .asleep ∧ (s.wake d).port e = .woken := by
  rw [wake]
  split
  · next hasleep =>
    by_cases he : e = d
    · subst he
      exact .inr ⟨hasleep, by simp [goto]⟩
    · exact .inl (Function.update_of_ne he ..)
  · exact .inl rfl

theorem PortState.wake_frame (s : PortState) (d : Nat) :
    (s.wake d).machine = s.machine ∧ (s.wake d).poke = s.poke ∧ (s.wake d).pending = s.pending ∧
      (s.wake d).mutex = s.mutex ∧ (s.wake d).shutdown = s.shutdown := by
  rw [wake]
  split <;> exact ⟨rfl, rfl, rfl, rfl, rfl⟩

theorem PortState.afterKernel_cases (m m' : Machine) (c : Nat) :
    (∃ d, afterKernel m m' c = .casPoke d) ∨ afterKernel m m' c = .casShutdown ∧ m'.core c = .halted ∨
      afterKernel m m' c = .kernel := by
  rw [afterKernel]
  cases m.posting c with
  | some d => exact .inl ⟨d, rfl⟩
  | none =>
    by_cases hhalt : m'.core c = .halted
    · exact .inr (.inl ⟨if_pos hhalt, hhalt⟩)
    · exact .inr (.inr (if_neg hhalt))

theorem PortState.afterPoke_cases (cfg : Config) (d : Nat) (sender : Sender) :
    sender = .post ∧ afterPoke cfg d sender = .kernel ∨
      sender = .shutdown ∧ d + 1 < cfg.cores ∧
        afterPoke cfg d sender = .poke (d + 1) .store .shutdown ∨
      sender = .shutdown ∧ cfg.cores ≤ d + 1 ∧ afterPoke cfg d sender = .returned := by
  cases sender with
  | post => exact .inl ⟨rfl, rfl⟩
  | shutdown =>
    by_cases hd : d + 1 < cfg.cores
    · exact .inr (.inl ⟨rfl, hd, if_pos hd⟩)
    · exact .inr (.inr ⟨rfl, Nat.le_of_not_lt hd, if_neg hd⟩)

theorem PortTrans.mutexOk {l : Label} (ht : PortTrans cfg s l s')
    (h : MutexOk s.port s.mutex) : MutexOk s'.port s'.mutex := by
  cases ht with
  | main hl hstep => exact h
  | @kernel c act m' hpc hstep =>
    refine h.move fun d hheld => ?_
    rcases PortState.afterKernel_cases s.machine m' c with ⟨d, hpc⟩ | ⟨hpc, -⟩ | hpc <;>
      · rw [hpc] at hheld
        cases hheld
  | consume hpc hpending | miss hpc hpending =>
    refine h.move fun d hheld => ?_
    rcases hpc with ⟨-, -, rfl⟩ | ⟨hpc, rfl⟩
    · cases hheld
    · rw [hpc]
      exact hheld
  | @acquire c b hpc hfree => exact h.acquire hfree fun d hheld => (of_decide_eq_true hheld).symm
  | @release c b pc hpc =>
    refine h.release ?_ fun d => ?_
    · rcases hpc with ⟨hpc, -⟩ | ⟨hpc, -⟩ <;> rw [hpc] <;> exact decide_eq_true rfl
    · rcases hpc with ⟨-, rfl⟩ | ⟨-, rfl⟩ <;> rfl
  | spurious hpc | rely hpc | raise hpc | store hpc | announce hpc | follow hpc =>
    exact h.move fun d hheld => nomatch hheld
  | pokeLock hpc hfree => exact h.acquire hfree fun d hheld => (of_decide_eq_true hheld).symm
  | @signal c d b sender hpc =>
    have hwake : MutexOk (s.wake d).port (s.wake d).mutex := by
      rw [PortState.wake]
      split
      · exact h.move fun d hheld => nomatch hheld
      · exact h
    refine hwake.move fun d' hheld => ?_
    rcases s.wake_port d c with hsame | ⟨hasleep, -⟩
    · rw [hsame, hpc]
      exact hheld
    · rw [hpc] at hasleep
      cases hasleep
  | @pokeUnlock c d b sender hpc =>
    refine h.release (c := c) (by rw [hpc]; exact decide_eq_true rfl) fun d' => ?_
    rcases PortState.afterPoke_cases cfg d sender with ⟨-, hpc⟩ | ⟨-, -, hpc⟩ | ⟨-, -, hpc⟩ <;>
      rw [hpc] <;> rfl

/-! ## The machine under the port -/

/-- A step of the port is one of the machine or leaves the machine alone. -/
theorem PortTrans.machine {l : Label} (ht : PortTrans cfg s l s') :
    s'.machine = s.machine ∨ s.machine.step cfg l = .ok s'.machine := by
  cases ht with
  | main hl hstep | kernel hpc hstep => exact .inr hstep
  | @signal c d b sender hpc => exact .inl (s.wake_frame d).1
  | _ => exact .inl rfl

/-- The states of the runs in which threads are constructed with priorities the ready
matrix has. -/
def PortReachable (cfg : Config) : PortState → Prop :=
  (portSystem cfg).ReachVia fun _ l => l.Valid cfg

/-- The port runs the machine: the machine of a state reached is reached. -/
theorem PortReachable.machine (h : PortReachable cfg s) : Reachable cfg s.machine := by
  refine Lts.ReachVia.invariant (I := fun s => Reachable cfg s.machine) (fun s hs => ?_)
    (fun s l s' _ hreach hvalid hstep => ?_) h
  · cases hs
    exact .init rfl
  · rcases (PortTrans.of_step hstep).machine with hsame | hstep
    · rwa [hsame]
    · exact hreach.step hvalid hstep

/-- What is known about the machine. -/
def MachineOk (cfg : Config) (m : Machine) : Prop :=
  (∃ a, Sim cfg m a) ∧ ContextAccounts cfg m

theorem MachineOk.step (h : MachineOk cfg m) {l : Label} (hvalid : l.Valid cfg)
    (hfit : ContextsFit m l) (hs : m.step cfg l = .ok m') : MachineOk cfg m' := by
  obtain ⟨⟨a, hsim⟩, haccounts⟩ := h
  obtain ⟨a', ht⟩ := hsim.trans hvalid hs
  exact ⟨⟨a', ht.sim hsim⟩, haccounts.step hsim ht hs hfit⟩

theorem PortTrans.machineOk {l : Label} (ht : PortTrans cfg s l s') (h : MachineOk cfg s.machine)
    (hvalid : l.Valid cfg) (hfit : ContextsFit s.machine l) : MachineOk cfg s'.machine := by
  rcases ht.machine with hsame | hstep
  · rwa [hsame]
  · exact h.step hvalid hfit hstep

/-- Quiescence is stable under all steps of the port. -/
theorem PortTrans.quiescent {l : Label} (ht : PortTrans cfg s l s') (h : MachineOk cfg s.machine)
    (hvalid : l.Valid cfg) (hq : Quiescent cfg s.machine) :
    Quiescent cfg s'.machine ∧ s'.machine.kernel.threads = s.machine.kernel.threads := by
  rcases ht.machine with hsame | hstep
  · rw [hsame]
    exact ⟨hq, rfl⟩
  · obtain ⟨⟨a, hsim⟩, haccounts⟩ := h
    obtain ⟨a', ht'⟩ := hsim.trans hvalid hstep
    exact hq.step haccounts hsim ht' hstep

/-! ## Steps of one core as the others see them -/

/-- Only core `d` moves its scheduler fiber. -/
theorem Trans.core_of_ne {l : Label} (ht : Trans cfg m a l m' a') (hl : ∀ act, l ≠ .core d act) :
    m'.core d = m.core d := by
  cases l with
  | construct priority affinity => cases ht; rfl
  | start => cases ht; rfl
  | core c act =>
    refine (ht.other_core fun hd => ?_).1
    exact hl act (hd ▸ rfl)

theorem Machine.idling_iff : m.idling c = true ↔
    m.core c = .thread ∧ ∃ t, m.kernel.current c = some t ∧ m.fiber t = .idle := by
  rw [idling, Bool.and_eq_true, decide_eq_true_eq]
  cases m.kernel.current c with
  | none => simp
  | some t => simp

/-- A core stays in its idle thread while the others move. -/
theorem Trans.idling_of_ne {l : Label} (ht : Trans cfg m a l m' a') (h : Sim cfg m a)
    (hl : ∀ act, l ≠ .core d act) (hidle : m.idling d = true) : m'.idling d = true := by
  obtain ⟨hcore, t, hcur, hpc⟩ := Machine.idling_iff.mp hidle
  have hcur' : m'.kernel.current d = some t := by
    rcases ht.current d with hsame | ⟨b, rfl, -⟩
    · rwa [hsame]
    · exact absurd rfl (hl (.next b))
  have hpc' : m'.fiber t = .idle := by
    rcases ht.fiber t with hsame | ⟨c, act, rfl, -, hcurc⟩
    · rwa [hsame]
    · -- the idle thread is pinned to its core
      have hc : c = d := (h.current c t hcurc).1.symm.trans (h.current d t hcur).1
      exact absurd (hc ▸ rfl) (hl act)
  exact Machine.idling_iff.mpr ⟨(ht.core_of_ne hl).trans hcore, t, hcur', hpc'⟩

/-- What core `e` sees of a step of another core. -/
structure Seen (s s' : PortState) (e : Nat) : Prop where
  port : s'.port e = s.port e ∨ s.port e = .asleep ∧ s'.port e = .woken
  pending : s.pending e = true → s'.pending e = true
  core : s'.machine.core e = s.machine.core e
  idling : s.machine.idling e = true → s'.machine.idling e = true

theorem PortTrans.port_of_ne {l : Label} (ht : PortTrans cfg s l s') (hl : ∀ act, l ≠ .core e act) :
    s'.port e = s.port e ∨ s.port e = .asleep ∧ s'.port e = .woken := by
  have hport : ∀ {c : Nat} {act : Act} (port : Nat → PortPc) (pc : PortPc), l = .core c act →
      Function.update port c pc e = port e := fun port pc hlc =>
    Function.update_of_ne (fun he => hl _ (he ▸ hlc)) _ _
  cases ht with
  | main hl hstep => exact .inl rfl
  | @signal c d b sender hpc =>
    refine Or.imp (fun hsame => ?_) (fun hwoken => ?_) (s.wake_port d e)
    · exact (hport _ _ rfl).trans hsame
    · exact ⟨hwoken.1, (hport _ _ rfl).trans hwoken.2⟩
  | _ => exact .inl (hport _ _ rfl)

theorem PortTrans.seen {l : Label} (ht : PortTrans cfg s l s') (h : MachineOk cfg s.machine)
    (hvalid : l.Valid cfg) (hl : ∀ act, l ≠ .core e act) : Seen s s' e := by
  obtain ⟨⟨a, hsim⟩, -⟩ := h
  have hmachine : s'.machine.core e = s.machine.core e ∧
      (s.machine.idling e = true → s'.machine.idling e = true) := by
    rcases ht.machine with hsame | hstep
    · rw [hsame]
      exact ⟨rfl, id⟩
    · obtain ⟨a', ht'⟩ := hsim.trans hvalid hstep
      exact ⟨ht'.core_of_ne hl, ht'.idling_of_ne hsim hl⟩
  have hpending : ∀ {c : Nat} {act : Act}, l = .core c act →
      Function.update s.pending c false e = s.pending e := fun hlc =>
    Function.update_of_ne (fun he => hl _ (he ▸ hlc)) _ _
  refine ⟨ht.port_of_ne hl, ?_, hmachine.1, hmachine.2⟩
  cases ht with
  | consume hpc hp => exact fun hset => (hpending rfl).trans hset
  | @store c d b sender hpc =>
    intro hset
    show Function.update s.pending d true e = true
    by_cases he : e = d
    · rw [he, Function.update_self]
    · rwa [Function.update_of_ne he]
  | @signal c d b sender hpc =>
    intro hset
    show (s.wake d).pending e = true
    rwa [(s.wake_frame d).2.2.1]
  | _ => exact id

/-- Whether a step is one of core `e`. -/
theorem Label.core_cases (l : Label) (e : Nat) : (∃ act, l = .core e act) ∨ ∀ act, l ≠ .core e act := by
  by_cases h : ∃ act, l = .core e act
  · exact .inl h
  · exact .inr fun act hl => h ⟨act, hl⟩

/-! ## The idle thread -/

/-- In `cortos_port_idle`, or back from it. -/
def Port.PortPc.inIdle : PortPc → Bool
  | .lock | .check | .wait | .asleep | .woken | .unlock | .pend => true
  | _ => false

/-- Only idle threads call `cortos_port_idle`. -/
def IdleOk (s : PortState) : Prop :=
  ∀ c, (s.port c).inIdle = true → s.machine.idling c = true

theorem PortTrans.idleOk {l : Label} (ht : PortTrans cfg s l s') (hI : IdleOk s)
    (h : MachineOk cfg s.machine) (hvalid : l.Valid cfg) : IdleOk s' := by
  intro e hidle
  rcases l.core_cases e with ⟨act, rfl⟩ | hl
  · cases ht with
    | main hl hstep => exact absurd rfl (hl e act)
    | @kernel _ _ m' hpc hstep =>
      simp only [PortState.goto, Function.update_self] at hidle
      rcases PortState.afterKernel_cases s.machine m' e with ⟨d, hpc⟩ | ⟨hpc, -⟩ | hpc <;>
        · rw [hpc] at hidle
          cases hidle
    | consume hpc hpending | miss hpc hpending =>
      rcases hpc with ⟨-, hidling, -⟩ | ⟨hpc, -⟩
      · exact hidling
      · exact hI e (by rw [hpc]; rfl)
    | acquire hpc hfree => exact hI e (by rcases hpc with hpc | hpc <;> rw [hpc] <;> rfl)
    | release hpc => exact hI e (by rcases hpc with ⟨hpc, -⟩ | ⟨hpc, -⟩ <;> rw [hpc] <;> rfl)
    | spurious hpc => exact hI e (by rw [hpc]; rfl)
    | rely hpc | raise hpc | store hpc | pokeLock hpc | signal hpc | announce hpc | follow hpc =>
      simp only [PortState.goto, Function.update_self] at hidle
      cases hidle
    | @pokeUnlock _ d b sender hpc =>
      simp only [PortState.goto, Function.update_self] at hidle
      rcases PortState.afterPoke_cases cfg d sender with ⟨-, hpc⟩ | ⟨-, -, hpc⟩ | ⟨-, -, hpc⟩ <;>
        · rw [hpc] at hidle
          cases hidle
  · have hseen := ht.seen h hvalid hl
    refine hseen.idling (hI e ?_)
    rcases hseen.port with hsame | ⟨hasleep, -⟩
    · rwa [← hsame]
    · rw [hasleep]
      rfl

/-- After `cortos_port_idle` the idle thread reschedules. -/
theorem Machine.step_idling {act : Act} (hidle : m.idling c = true)
    (hs : m.step cfg (.core c act) = .ok m') : m'.core c = .pump ∧ m.posting c = none := by
  obtain ⟨hcore, t, hcur, hpc⟩ := Machine.idling_iff.mp hidle
  rw [step] at hs
  split at hs
  · cases act with
    | next b =>
      simp only [coreStep, hcore, hcur, hpc, threadNext] at hs
      cases hs
      exact ⟨by simp [pend], by simp [posting, hcore, hcur, hpc]⟩
    | _ => simp [coreStep, hcore, hcur, hpc] at hs
  · cases hs

/-- In a quiescent system a core leaves its pump loop. -/
theorem Quiescent.step_pump (hq : Quiescent cfg m) {act : Act} (hcore : m.core c = .pump)
    (hs : m.step cfg (.core c act) = .ok m') : m'.core c = .halted ∧ m.posting c = none := by
  rw [Machine.step] at hs
  split at hs
  · cases act with
    | next b =>
      simp only [Machine.coreStep, hcore, if_neg (Nat.not_lt_of_le hq.2)] at hs
      cases hs
      exact ⟨by simp [Machine.coreGoto], by simp [Machine.posting, hcore]⟩
    | _ => simp [Machine.coreStep, hcore] at hs
  · cases hs

/-! ## Cores on their way out -/

/-- After the pump loop. -/
def Port.PortPc.leaving : PortPc → Bool
  | .casShutdown | .poke _ _ .shutdown | .returned => true
  | _ => false

/-- Core `e` has consumed a pending bit, or is at the test of the pump loop or after it. -/
def Past (s : PortState) (e : Nat) : Prop :=
  s.port e = .unlock ∨ s.port e = .pend ∨ (s.port e).leaving = true ∨
    s.port e = .kernel ∧ s.machine.core e = .pump

theorem Past.not_asleep (h : Past s e) : s.port e ≠ .asleep := by
  intro hasleep
  rcases h with hpc | hpc | hpc | ⟨hpc, -⟩ <;>
    · rw [hasleep] at hpc
      cases hpc

/-- The others do not hold up a core on its way out. -/
theorem Past.seen (h : Past s e) (hseen : Seen s s' e) : Past s' e := by
  rcases hseen.port with hsame | ⟨hasleep, -⟩
  · rw [Past, hsame, hseen.core]
    exact h
  · exact absurd hasleep h.not_asleep

/-- A core on its way out takes a step. -/
theorem Past.step {act : Act} (h : Past s e) (hI : IdleOk s) (hq : Quiescent cfg s.machine)
    (ht : PortTrans cfg s (.core e act) s') : Past s' e := by
  have habsurd : ∀ {pc}, s.port e = pc → pc ≠ .unlock → pc ≠ .pend → pc.leaving = false →
      pc ≠ .kernel → Past s' e := fun {pc} hpc hu hp hl hk => by
    rcases h with h | h | h | ⟨h, -⟩ <;> simp_all
  have hidle : ∀ {P : Prop}, s.port e = .kernel → s.machine.idling e = true → P :=
    fun hpc hidling => by
      have hcore := (Machine.idling_iff.mp hidling).1
      rcases h with h | h | h | ⟨-, h⟩ <;> simp_all [PortPc.leaving]
  have hsender : ∀ {d pc sender}, s.port e = .poke d pc sender → sender = .shutdown :=
    fun {d pc sender} hpc => by
      cases sender with
      | shutdown => rfl
      | post => rcases h with h | h | h | ⟨h, -⟩ <;> simp_all [PortPc.leaving]
  cases ht with
  | main hl hstep => exact absurd rfl (hl e act)
  | @kernel _ _ m' hpc hstep =>
    rcases hpc with ⟨hpc, hidling⟩ | hpc
    · -- at the test of the pump loop
      have hcore : s.machine.core e = .pump := by
        rcases h with h | h | h | ⟨-, h⟩ <;> simp_all [PortPc.leaving]
      obtain ⟨hhalted, hpost⟩ := hq.step_pump hcore hstep
      refine .inr (.inr (.inl ?_))
      simp [PortState.goto, PortState.afterKernel, hpost, hhalted, PortPc.leaving]
    · obtain ⟨hpump, hpost⟩ := Machine.step_idling (hI e (by rw [hpc]; rfl)) hstep
      refine .inr (.inr (.inr ⟨?_, hpump⟩))
      simp [PortState.goto, PortState.afterKernel, hpost, hpump]
  | consume hpc hpending =>
    rcases hpc with ⟨hpc, hidling, -⟩ | ⟨hpc, -⟩
    · exact hidle hpc hidling
    · exact habsurd hpc nofun nofun rfl nofun
  | miss hpc hpending =>
    rcases hpc with ⟨hpc, hidling, -⟩ | ⟨hpc, -⟩
    · exact hidle hpc hidling
    · exact habsurd hpc nofun nofun rfl nofun
  | acquire hpc hfree => rcases hpc with hpc | hpc <;> exact habsurd hpc nofun nofun rfl nofun
  | release hpc =>
    rcases hpc with ⟨hpc, -⟩ | ⟨-, rfl⟩
    · exact habsurd hpc nofun nofun rfl nofun
    · exact .inr (.inl (Function.update_self ..))
  | spurious hpc | rely hpc | raise hpc => exact habsurd hpc nofun nofun rfl nofun
  | store hpc | pokeLock hpc | signal hpc =>
    refine .inr (.inr (.inl ?_))
    simp [PortState.goto, hsender hpc, PortPc.leaving]
  | @pokeUnlock _ d b sender hpc =>
    refine .inr (.inr (.inl ?_))
    simp only [PortState.goto, Function.update_self]
    rcases PortState.afterPoke_cases cfg d sender with ⟨hpost, -⟩ | ⟨-, -, hpc⟩ | ⟨-, -, hpc⟩
    · rw [hsender hpc] at hpost
      cases hpost
    · rw [hpc]
      rfl
    · rw [hpc]
      rfl
  | announce hpc hfirst | follow hpc hdone =>
    refine .inr (.inr (.inl ?_))
    simp [PortState.goto, PortPc.leaving]

/-- **Step lemma**: in a quiescent system a core on its way out stays so. -/
theorem PortTrans.past {l : Label} (ht : PortTrans cfg s l s') (h : MachineOk cfg s.machine)
    (hvalid : l.Valid cfg) (hI : IdleOk s) (hq : Quiescent cfg s.machine) (hp : Past s e) :
    Past s' e := by
  rcases l.core_cases e with ⟨act, rfl⟩ | hl
  · exact hp.step hI hq ht
  · exact hp.seen (ht.seen h hvalid hl)

/-! ## Poked cores -/

/-- The pending bit of core `e` is set, or `e` is on its way out. -/
def Alerted (s : PortState) (e : Nat) : Prop :=
  s.pending e = true ∨ Past s e

/-- Core `e` is on its way out, or its pending bit is set and it does not sleep on it. -/
def Roused (s : PortState) (e : Nat) : Prop :=
  Past s e ∨ s.pending e = true ∧ s.port e ≠ .asleep ∧ s.port e ≠ .wait

theorem Roused.not_asleep (h : Roused s e) : s.port e ≠ .asleep := by
  rcases h with h | h
  · exact h.not_asleep
  · exact h.2.1

/-- A core that takes a step while its pending bit is set consumes the bit or leaves it set,
and goes to sleep only if it was about to. -/
theorem PortTrans.own_pending {act : Act} (ht : PortTrans cfg s (.core e act) s')
    (hset : s.pending e = true) : Past s' e ∨ s'.pending e = true ∧
      (s.port e ≠ .asleep ∧ s.port e ≠ .wait → s'.port e ≠ .asleep ∧ s'.port e ≠ .wait) := by
  have hport : ∀ (port : Nat → PortPc) (pc : PortPc), pc ≠ .asleep → pc ≠ .wait →
      Function.update port e pc e ≠ .asleep ∧ Function.update port e pc e ≠ .wait :=
    fun port pc hasleep hwait => by
      rw [Function.update_self]
      exact ⟨hasleep, hwait⟩
  cases ht with
  | main hl hstep => exact absurd rfl (hl e act)
  | @kernel _ _ m' hpc hstep =>
    refine .inr ⟨hset, fun _ => ?_⟩
    rcases PortState.afterKernel_cases s.machine m' e with ⟨d, hpc⟩ | ⟨hpc, -⟩ | hpc <;>
      exact hport _ _ (by rw [hpc]; nofun) (by rw [hpc]; nofun)
  | consume hpc hpending =>
    rcases hpc with ⟨-, -, rfl⟩ | ⟨-, rfl⟩
    · exact .inl (.inr (.inl (Function.update_self ..)))
    · exact .inl (.inl (Function.update_self ..))
  | miss hpc hpending =>
    rw [hset] at hpending
    cases hpending
  | acquire hpc hfree => exact .inr ⟨hset, fun _ => hport _ _ nofun nofun⟩
  | release hpc =>
    rcases hpc with ⟨hpc, -⟩ | ⟨-, rfl⟩
    · exact .inr ⟨hset, fun hnot => absurd hpc hnot.2⟩
    · exact .inl (.inr (.inl (Function.update_self ..)))
  | spurious hpc => exact .inr ⟨hset, fun hnot => absurd hpc hnot.1⟩
  | rely hpc | raise hpc | pokeLock hpc | announce hpc | follow hpc =>
    exact .inr ⟨hset, fun _ => hport _ _ nofun nofun⟩
  | @store _ d b sender hpc =>
    refine .inr ⟨?_, fun _ => hport _ _ nofun nofun⟩
    show Function.update s.pending d true e = true
    by_cases he : e = d
    · rw [he, Function.update_self]
    · rwa [Function.update_of_ne he]
  | @signal _ d b sender hpc =>
    refine .inr ⟨?_, fun _ => hport _ _ nofun nofun⟩
    show (s.wake d).pending e = true
    rwa [(s.wake_frame d).2.2.1]
  | @pokeUnlock _ d b sender hpc =>
    refine .inr ⟨hset, fun _ => ?_⟩
    rcases PortState.afterPoke_cases cfg d sender with ⟨-, hpc⟩ | ⟨-, -, hpc⟩ | ⟨-, -, hpc⟩ <;>
      exact hport _ _ (by rw [hpc]; nofun) (by rw [hpc]; nofun)

/-- What holds of the system while it shuts down. -/
structure ShuttingDown (cfg : Config) (s : PortState) (l : Label) : Prop where
  machine : MachineOk cfg s.machine
  valid : l.Valid cfg
  idle : IdleOk s
  quiescent : Quiescent cfg s.machine

section ShuttingDown

variable {l : Label}

theorem ShuttingDown.past (h : ShuttingDown cfg s l) (ht : PortTrans cfg s l s') (hp : Past s e) :
    Past s' e :=
  ht.past h.machine h.valid h.idle h.quiescent hp

theorem ShuttingDown.alerted (h : ShuttingDown cfg s l) (ht : PortTrans cfg s l s')
    (ha : Alerted s e) : Alerted s' e := by
  rcases ha with hset | hp
  · rcases l.core_cases e with ⟨act, rfl⟩ | hl
    · rcases ht.own_pending hset with hp | ⟨hset', -⟩
      · exact .inr hp
      · exact .inl hset'
    · exact .inl ((ht.seen h.machine h.valid hl).pending hset)
  · exact .inr (h.past ht hp)

theorem ShuttingDown.roused (h : ShuttingDown cfg s l) (ht : PortTrans cfg s l s')
    (hr : Roused s e) : Roused s' e := by
  rcases hr with hp | ⟨hset, hnot⟩
  · exact .inl (h.past ht hp)
  · rcases l.core_cases e with ⟨act, rfl⟩ | hl
    · rcases ht.own_pending hset with hp | ⟨hset', hnot'⟩
      · exact .inl hp
      · exact .inr ⟨hset', hnot' hnot⟩
    · have hseen := ht.seen h.machine h.valid hl
      refine .inr ⟨hseen.pending hset, ?_⟩
      rcases hseen.port with hsame | ⟨-, hwoken⟩
      · rwa [hsame]
      · rw [hwoken]
        exact ⟨nofun, nofun⟩

end ShuttingDown

end Cortos
