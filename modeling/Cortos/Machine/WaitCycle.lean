import Mathlib.Data.Nat.Count
import Cortos.Machine.Observation

/-!
# From block to wake

A thread that blocks goes through the same stations every time: it is linked on
its waitables, some signaller wins its group, tears the group down and hands the
thread to `set_thread_ready`. `WaitMove` lists what a step can do to one thread in
that respect, so that statements about waits need not look at all transitions.

- `Trans.waitMove`: every step makes one of these moves on every thread;
- `wakes_count`: along a run, the number of wakes of a thread is that of its waits,
  less one while it is asleep;
- `Machine.call_waitsOn`, `Machine.step_blocks`: what a thread waits on is what its
  call says, and `wait_until` blocks only if its predicate is false under the lock.
-/

namespace Cortos

open Lib

variable {cfg : Config} {m m' : Machine} {a a' : Life} {c : Nat} {t x u j : ThreadRef}

/-! ## Asleep and woken -/

/-- Blocked, and not yet handed to `set_thread_ready`. -/
def Phase.asleep : Phase → Bool
  | waiting _ | won _ _ | torn _ => true
  | _ => false

/-- The thread that is about to be woken. -/
def ThreadPc.wakesUp : ThreadPc → Option ThreadRef
  | setReady _ x => some x
  | _ => none

/-- The thread that the step labelled `l` wakes: `wake_thread` calls
`set_thread_ready` on it. -/
def Machine.wakes (m : Machine) : Label → Option ThreadRef
  | .core c (.next _) =>
    if m.core c = .thread then (m.kernel.current c).bind fun t => (m.fiber t).wakesUp else none
  | _ => none

theorem Machine.wakes_acting {b : Bool} (hcore : m.core c = .thread)
    (hcur : m.kernel.current c = some t) :
    m.wakes (.core c (.next b)) = (m.fiber t).wakesUp := by
  simp [wakes, hcore, hcur]

/-- A step of a scheduler fiber wakes nobody. -/
theorem Machine.wakes_scheduler {b : Bool} (hcore : m.core c ≠ .thread) :
    m.wakes (.core c (.next b)) = none := by
  simp [wakes, hcore]

/-- What a step does to the wait of thread `j`. -/
inductive WaitMove (m : Machine) (a : Life) (l : Label) (m' : Machine) (a' : Life)
    (j : ThreadRef) : Prop
  | keep (hwake : m.wakes l ≠ some j) (hwaits : m'.waits j = m.waits j)
    (hphase : a'.phase j = a.phase j ∨
      (a.phase j).asleep = false ∧ (a'.phase j).asleep = false)
  | block {c : Nat} {act : Act} {ws : List WaitableRef} {p : Option Predicate}
    (hwake : m.wakes l ≠ some j) (hwaits : m'.waits j = m.waits j + 1)
    (hl : l = .core c act) (hcore : m.core c = .thread) (hcur : m.kernel.current c = some j)
    (hpc : m.fiber j = .user ∧ p = none ∨ ∃ q, m.fiber j = .evaluate ws q ∧ p = some q)
    (hphase : a.phase j = .running) (hphase' : a'.phase j = .waiting ws)
    (hpc' : m'.fiber j = .commence ws p)
  | win {u : ThreadRef} {s : SignalCall} {n : NodeRef} {wait i : Nat} {ws : List WaitableRef}
    (hwake : m.wakes l ≠ some j) (hwaits : m'.waits j = m.waits j)
    (hpc : m.fiber u = .tryWin s n wait n.owner n.owner i) (howner : n.owner = j)
    (hphase : a.phase j = .waiting ws) (hphase' : a'.phase j = .won u ws)
  | tearDown {u : ThreadRef} {ws : List WaitableRef}
    (hwake : m.wakes l ≠ some j) (hwaits : m'.waits j = m.waits j)
    (hphase : a.phase j = .won u ws) (hphase' : a'.phase j = .torn u)
  | wake {u : ThreadRef} (hwake : m.wakes l = some j) (hwaits : m'.waits j = m.waits j)
    (hphase : a.phase j = .torn u) (hphase' : (a'.phase j).asleep = false)

/-- Only a claim to wake `j` up wakes it. -/
theorem ThreadPc.wakesUp_claim {pc : ThreadPc} (h : pc.wakesUp = some x) :
    pc.claim = some (x, .wakeUp) := by
  cases pc with
  | setReady s y =>
    cases h
    rfl
  | _ => cases h

theorem LocalStep.wakesUp {act : Act} {pc : ThreadPc} (hs : LocalStep cfg m a c t act pc m') :
    (m.fiber t).wakesUp ≠ some j := by
  intro hw
  have := ThreadPc.wakesUp_claim hw
  rw [hs.points.claim] at this
  cases this

/-- A step that only moves one thread `x` between two phases that are not asleep. -/
theorem WaitMove.phase {l : Label} (hwake : m.wakes l ≠ some j) (hwaits : m'.waits = m.waits)
    {φ : Phase} (hphase : a'.phase = Function.update a.phase x φ)
    (hx : (a.phase x).asleep = false) (hφ : φ.asleep = false) : WaitMove m a l m' a' j := by
  refine .keep hwake (by rw [hwaits]) ?_
  rw [hphase]
  by_cases hj : j = x
  · subst hj
    rw [Function.update_self]
    exact .inr ⟨hx, hφ⟩
  · exact .inl (Function.update_of_ne hj _ _)

/-- The thread that a core selects was not asleep. -/
theorem Sim.selects_asleep (h : Sim cfg m a) (hsel : a.Selects c t a') :
    (a.phase t).asleep = false := by
  rcases h.selects_phase hsel with hp | hp | hp <;> rw [hp] <;> rfl

/-- Readying a claimed thread is its wake, or it was never asleep. -/
theorem ReadyFrame.waitMove (h : Sim cfg m a) (hcore : m.core c = .thread)
    (hcur : m.kernel.current c = some t) {k : Kernel} {κ : Claim} {pc : ThreadPc} {b : Bool}
    (hf : ReadyFrame cfg m c t k x κ pc m') (hwake : (m.fiber t).wakesUp = some x ↔ κ = .wakeUp)
    {φ : Phase} (hφ : φ.asleep = false) (hphase : a'.phase = Function.update a.phase x φ) :
    WaitMove m a (.core c (.next b)) m' a' j := by
  have hphasex := (h.claims x t κ).mp hf.claim
  have hwakes : m.wakes (.core c (.next b)) = (m.fiber t).wakesUp := m.wakes_acting hcore hcur
  by_cases hj : j = x
  · subst hj
    cases κ with
    | makeReady =>
      refine .phase ?_ hf.waits hphase ?_ hφ
      · rw [hwakes, Ne, hwake]
        exact nofun
      · cases hp : a.phase j <;> simp_all [Phase.claim, Phase.asleep]
    | tearDown => exact absurd rfl hf.claim_ne
    | wakeUp =>
      have htorn : a.phase j = .torn t := by
        cases hp : a.phase j <;> simp_all [Phase.claim]
      refine .wake (u := t) ?_ (by rw [hf.waits]) htorn ?_
      · rw [hwakes, hwake]
      · rw [hphase, Function.update_self]
        exact hφ
  · refine .keep ?_ (by rw [hf.waits]) (.inl ?_)
    · rw [hwakes]
      intro hw
      have := ThreadPc.wakesUp_claim hw
      rw [hf.claim] at this
      exact hj (congrArg Prod.fst (Option.some.inj this)).symm
    · rw [hphase, Function.update_of_ne hj]

theorem AfterReady.wakesUp {k : Kernel} {resched : Bool} {κ : Claim} {pc : ThreadPc}
    (h : AfterReady m c t k resched x κ pc m') : (m.fiber t).wakesUp = some x ↔ κ = .wakeUp := by
  cases h with
  | register hpc => simp [hpc, ThreadPc.wakesUp]
  | setReady hpc hs => simp [hpc, ThreadPc.wakesUp]

/-- **What a step does to the wait of a thread.** -/
theorem Trans.waitMove {l : Label} (ht : Trans cfg m a l m' a') (h : Sim cfg m a)
    (j : ThreadRef) : WaitMove m a l m' a' j := by
  have hunborn : (a.phase (.user m.kernel.threads)).asleep = false := by
    rw [(h.born _).mpr (Nat.le_refl _)]
    rfl
  -- a thread that is in a call of its own is awake, and wakes nobody but in `setReady`
  have hacting : ∀ {c t b}, m.core c = .thread → m.kernel.current c = some t →
      (m.fiber t).wakesUp = none → m.wakes (.core c (.next b)) ≠ some j := by
    intro c t b hcore hcur hpc
    rw [m.wakes_acting hcore hcur, hpc]
    exact nofun
  cases ht with
  | constructBoot hrun hd hprio => exact .phase nofun rfl rfl hunborn rfl
  | start hrun hpos => exact .keep nofun rfl (.inl rfl)
  | @thread c t act pc m' hcore hcur hs =>
    refine .keep ?_ (by rw [hs.frame.waits]) (.inl rfl)
    cases act with
    | next b =>
      rw [m.wakes_acting hcore hcur]
      exact hs.wakesUp
    | _ => exact nofun
  | construct hcore hcur hpc hd hprio => exact .phase nofun rfl rfl hunborn rfl
  | @block c t act ws p links hcore hcur hpc hpos hlen hnd hsim =>
    have hwake : m.wakes (.core c act) ≠ some j := by
      cases act with
      | next b =>
        refine hacting hcore hcur ?_
        rcases hpc with ⟨hpc, -⟩ | ⟨q, hpc, -⟩ <;> rw [hpc] <;> rfl
      | _ => exact nofun
    by_cases hj : j = t
    · subst hj
      have hrunning : a.phase j = .running := by
        rcases h.acting_phase hcore hcur with ⟨hr, -⟩ | ⟨-, ws, p, he⟩ | ⟨-, he⟩
        · exact hr
        · rcases hpc with ⟨hpc, -⟩ | ⟨q, hpc, -⟩ <;> rw [hpc] at he <;> cases he
        · rcases hpc with ⟨hpc, -⟩ | ⟨q, hpc, -⟩ <;> rw [hpc] at he <;> cases he
      exact .block hwake (Function.update_self ..) rfl hcore hcur hpc hrunning
        (Function.update_self ..) (Function.update_self ..)
    · exact .keep hwake (Function.update_of_ne hj _ _) (.inl (Function.update_of_ne hj _ _))
  | @ret c t hcore hcur hpc =>
    refine .phase nofun rfl rfl ?_ rfl
    rcases h.acting_phase hcore hcur with ⟨hr, -⟩ | ⟨-, ws, p, he⟩ | ⟨hr, -⟩
    · rw [hr]
      rfl
    · rw [hpc] at he
      cases he
    · rw [hr]
      rfl
  | terminate hcore hcur hpc =>
    exact .keep (hacting hcore hcur (by rw [hpc]; rfl)) rfl (.inl rfl)
  | @win c t b s n wait i ws hcore hcur hpc hx =>
    have hwake := hacting (b := b) hcore hcur (by rw [hpc]; rfl)
    by_cases hj : n.owner = j
    · subst hj
      exact .win hwake rfl hpc rfl hx (Function.update_self ..)
    · exact .keep hwake rfl (.inl (Function.update_of_ne (Ne.symm hj) _ _))
  | @tearDown c t x b s ws links hcore hcur hpc hx hsim =>
    have hwake := hacting (b := b) hcore hcur (by rw [hpc]; rfl)
    by_cases hj : x = j
    · subst hj
      exact .tearDown hwake rfl hx (Function.update_self ..)
    · exact .keep hwake rfl (.inl (Function.update_of_ne (Ne.symm hj) _ _))
  | ready hcore hcur hafter hpin =>
    have hf : ReadyFrame cfg _ _ _ _ _ _ _ _ := hafter.frame
    exact hf.waitMove h hcore hcur hafter.wakesUp (φ := .ready) rfl rfl
  | @post c t x b κ pc m' hcore hcur hafter hpin hroom =>
    have hf : ReadyFrame cfg _ _ _ _ _ _ _ _ := hafter.frame
    refine hf.waitMove h hcore hcur hafter.wakesUp (φ := (a.phase x).afterPost) ?_ rfl
    cases a.phase x <;> rfl
  | boot hrun hc hcore hpop hsel hsim =>
    exact .phase (by rw [m.wakes_scheduler (by simp [hcore])]; exact nofun) rfl hsel.phase
      (h.selects_asleep hsel) rfl
  | @coreMove c b pc hmove =>
    refine .keep ?_ rfl (.inl rfl)
    rw [m.wakes_scheduler hmove.core.2]
    exact nofun
  | @drainOne c x rest hcore hin =>
    refine .phase (by rw [m.wakes_scheduler (by simp [hcore])]; exact nofun) rfl rfl ?_ rfl
    have := (((h.inbox c).2 x).mp (by rw [hin]; exact List.mem_cons_self)).1
    cases hp : a.phase x <;> simp_all [Phase.inInbox, Phase.asleep]
  | @switch c t next b k a' hc hcore hcur hnr hpop hsel hsim =>
    have hwake : m.wakes (.core c (.next b)) ≠ some j := by
      rw [m.wakes_scheduler (by simp [hcore])]
      exact nofun
    have hrot := (h.rotate hcore hcur).1
    -- the outgoing thread goes back to its queue, or its phase stays
    have hout : (a.rotated c (m.kernel.priority t) t).phase j = a.phase j ∨
        (a.phase j).asleep = false ∧
          ((a.rotated c (m.kernel.priority t) t).phase j).asleep = false := by
      by_cases hj : j = t
      · subst hj
        rw [Life.rotated]
        split
        · next hr =>
          refine .inr ⟨by rw [hr]; rfl, ?_⟩
          split <;> simp [Life.setPhase, Life.enqueue, Phase.asleep]
        · exact .inl rfl
      · exact .inl (Life.rotated_phase hj)
    refine .keep hwake rfl ?_
    rw [hsel.phase]
    by_cases hj : j = next
    · subst hj
      rw [Function.update_self]
      have hready := hrot.selects_asleep hsel
      rcases hout with he | ⟨hj, -⟩
      · exact .inr ⟨he ▸ hready, rfl⟩
      · exact .inr ⟨hj, rfl⟩
    · rw [Function.update_of_ne hj]
      exact hout

theorem Phase.held_of_not_asleep {φ : Phase} (h : φ.asleep = false) : φ.held = [] := by
  cases φ <;> first | rfl | cases h

/-- The thread that tears a wait down is the one that has won it. -/
theorem Trans.tearDown_acting {l : Label} (ht : Trans cfg m a l m' a') (h : Sim cfg m a)
    {ws : List WaitableRef} (hwon : a.phase x = .won u ws) (htorn : a'.phase x = .torn u) :
    m.acting l = some u ∧ (m.fiber u).claim = some (x, .tearDown) := by
  have hclaim : (m.fiber u).claim = some (x, .tearDown) := (h.claims x u _).mpr (by rw [hwon]; rfl)
  have hclaim' : (m'.fiber u).claim = some (x, .wakeUp) :=
    ((ht.sim h).claims x u _).mpr (by rw [htorn]; rfl)
  refine ⟨?_, hclaim⟩
  rcases ht.fiber u with hsame | ⟨c, act, rfl, hcore, hcur⟩
  · rw [hsame, hclaim] at hclaim'
    cases hclaim'
  · exact Machine.acting_core hcore hcur

/-- A thread that is about to leave its core was so before, or the step has blocked
it. -/
theorem Trans.commence {l : Label} (ht : Trans cfg m a l m' a') {ws : List WaitableRef}
    {p : Option Predicate} (hpc' : m'.fiber j = .commence ws p) :
    m.fiber j = .commence ws p ∨ ∃ c act, l = .core c act ∧ m.core c = .thread ∧
      m.kernel.current c = some j ∧
      (m.fiber j = .user ∧ p = none ∨ ∃ q, m.fiber j = .evaluate ws q ∧ p = some q) := by
  have hmove : ∀ {t pc}, m'.fiber = Function.update m.fiber t pc →
      (∀ ws p, pc ≠ .commence ws p) → m.fiber j = .commence ws p := by
    intro t pc hf hpc
    rw [hf] at hpc'
    by_cases hj : j = t
    · subst hj
      rw [Function.update_self] at hpc'
      exact absurd hpc' (hpc ws p)
    · rwa [Function.update_of_ne hj] at hpc'
  cases ht with
  | @block c t act vs q links hcore hcur hpc hpos hlen hnd hsim =>
    by_cases hj : j = t
    · subst hj
      obtain ⟨rfl, rfl⟩ : vs = ws ∧ q = p := by simpa [Machine.goto] using hpc'
      exact .inr ⟨c, act, rfl, hcore, hcur, hpc⟩
    · exact .inl ((Function.update_of_ne hj _ _).symm.trans hpc')
  | thread hcore hcur hs => exact .inl (hmove hs.frame.fiber hs.points.commence')
  | ready hcore hcur hafter | post hcore hcur hafter =>
    have hf : ReadyFrame cfg _ _ _ _ _ _ _ _ := hafter.frame
    exact .inl (hmove hf.fiber hf.commence')
  | construct | ret | terminate | win | tearDown => exact .inl (hmove rfl (by simp))
  | constructBoot | start | boot | coreMove | drainOne | switch => exact .inl hpc'

/-! ## Each wait is woken once -/

/-- Thread `j` is blocked and not on its way back to a ready matrix. -/
def Machine.Asleep (m : Machine) (j : ThreadRef) : Prop :=
  m.kernel.state j = .blocked ∧ j ∉ (m.kernel.schedulers (m.kernel.pinnedCore j)).inbox

instance (m : Machine) : DecidablePred m.Asleep := fun _ => inferInstanceAs (Decidable (_ ∧ _))

theorem Sim.asleep_iff (h : Sim cfg m a) (j : ThreadRef) :
    m.Asleep j ↔ (a.phase j).asleep = true := by
  rw [Machine.Asleep, (h.inbox _).2, (h.thread j).state]
  cases a.phase j <;> simp [Phase.state, Phase.inInbox, Phase.asleep]

/-- How often thread `j` is woken in the first `n` steps of a run. -/
def wakeCount {N : Nat} (r : (system cfg).Run N) (j : ThreadRef) (n : Nat) : Nat :=
  Nat.count (fun k => (r.state k).wakes (r.label k) = some j) n

/-- What a step adds to the balance of waits and wakes. -/
theorem WaitMove.balance {l : Label} (h : WaitMove m a l m' a' j) {k : Nat}
    (hk : m.waits j = k + (a.phase j).asleep.toNat) :
    m'.waits j = k + (if m.wakes l = some j then 1 else 0) + (a'.phase j).asleep.toNat := by
  cases h with
  | keep hwake hwaits hphase =>
    have hsame : (a'.phase j).asleep = (a.phase j).asleep := by
      rcases hphase with hp | ⟨hp, hp'⟩
      · rw [hp]
      · rw [hp, hp']
    rw [hwaits, hk, if_neg hwake, hsame, Nat.add_zero]
  | block hwake hwaits hl hcore hcur hpc hphase hphase'
  | win hwake hwaits hpc howner hphase hphase' | tearDown hwake hwaits hphase hphase' =>
    rw [hwaits, hk, if_neg hwake, hphase, hphase']
    rfl
  | wake hwake hwaits hphase hphase' =>
    rw [hwaits, hk, if_pos hwake, hphase, hphase']
    rfl

/-- **Each wait is woken once**: a thread has been woken as often as it has blocked,
less one while it is asleep. -/
theorem wakes_count {N : Nat} (r : (system cfg).Run N) (hr : ∀ i < N, (r.label i).Valid cfg)
    (j : ThreadRef) :
    ∀ i ≤ N, (r.state i).waits j = wakeCount r j i + if (r.state i).Asleep j then 1 else 0 := by
  intro i hi
  have hrun := run_invariant (C := fun _ l => l.Valid cfg) (fun _ _ hv => hv) r hr
    (I := fun i m a => m.waits j = wakeCount r j i + (a.phase j).asleep.toNat) ?_ ?_ i hi
  · obtain ⟨a, ha, hI⟩ := hrun
    rw [hI]
    cases hp : (a.phase j).asleep <;> simp [ha.asleep_iff, hp]
  · cases j with
    | user n => rfl
    | idle d =>
      rw [wakeCount, Nat.count_zero]
      show 0 = 0 + ((Life.initial cfg).phase (.idle d)).asleep.toNat
      rw [Life.initial]
      dsimp only
      split <;> rfl
  · intro i a a' hi ha hI ht
    rw [wakeCount, Nat.count_succ]
    exact (ht.waitMove ha j).balance hI

/-! ## What a thread waits on -/

/-- The waitables and the predicate of the wait that a thread is in. -/
def ThreadPc.waitsOn : ThreadPc → Option (List WaitableRef × Option Predicate)
  | evaluate ws p => some (ws, some p)
  | commence ws p | waitReturn ws p => some (ws, p)
  | _ => none

/-- The waitables and the predicate of a call that waits. -/
def Act.waitsOn : Act → Option (List WaitableRef × Option Predicate)
  | waitForAny os => some (os.map .object, none)
  | waitUntil os _ => some (os.map .object, some .application)
  | join n => some ([.termination (.user n)], some (.hasTerminated (.user n)))
  | _ => none

/-- The only wait on the termination of a thread is `join`. -/
theorem Act.waitsOn_termination {act : Act} {ws : List WaitableRef} {p : Option Predicate}
    (h : act.waitsOn = some (ws, p)) (hx : .termination x ∈ ws) :
    ws = [.termination x] ∧ p = some (.hasTerminated x) := by
  cases act with
  | join n =>
    obtain ⟨rfl, rfl⟩ : [.termination (.user n)] = ws ∧ some (.hasTerminated (.user n)) = p := by
      simpa [waitsOn] using h
    obtain rfl : x = .user n := by simpa using hx
    exact ⟨rfl, rfl⟩
  | waitForAny os =>
    obtain ⟨rfl, -⟩ : os.map .object = ws ∧ none = p := by simpa [waitsOn] using h
    simp at hx
  | waitUntil os b =>
    obtain ⟨rfl, -⟩ : os.map .object = ws ∧ some .application = p := by simpa [waitsOn] using h
    simp at hx
  | _ => cases h

theorem Machine.block_fiber {ws : List WaitableRef} {p : Option Predicate}
    (h : m.block cfg t ws p = .ok m') : m'.fiber t = .commence ws p := by
  simp only [block, bind_ok, pure, Except.pure, Except.ok.injEq] at h
  obtain ⟨k, -, rfl⟩ := h
  exact Function.update_self ..

theorem Machine.block_waits {ws : List WaitableRef} {p : Option Predicate}
    (h : m.block cfg t ws p = .ok m') : m'.waits t = m.waits t + 1 := by
  simp only [block, bind_ok, pure, Except.pure, Except.ok.injEq] at h
  obtain ⟨k, -, rfl⟩ := h
  exact Function.update_self ..

/-- A call of the application enters the wait that the call describes. -/
theorem Machine.call_waitsOn {act : Act} (hpc : m.fiber t = .user)
    (h : m.call cfg c t act = .ok m') {w : List WaitableRef × Option Predicate}
    (hw : (m'.fiber t).waitsOn = some w) : act.waitsOn = some w := by
  have hgoto : ∀ k pc, (m.goto k t pc).fiber t = pc := fun k pc => Function.update_self ..
  have hwait : ∀ {ws p b}, check (m.waitUntil cfg t ws p b) = .ok m' → (ws, some p) = w := by
    intro ws p b h
    simp only [check_ok, waitUntil, bind_ok, cortosAssert_ok, exists_const, pure,
      Except.pure] at h
    obtain ⟨-, -, h⟩ := h
    split at h
    · cases h
      rw [show (Machine.fiber { m with result := _ } t) = .user from hpc] at hw
      cases hw
    · cases h
      rw [show (Machine.goto _ _ t (.evaluate ws p)).fiber t = .evaluate ws p from
        Function.update_self ..] at hw
      exact Option.some.inj hw
  cases act with
  | next b => cases h
  | yield =>
    cases h
    rw [show (m.pend m.kernel c t .user).fiber t = .user from Function.update_self ..] at hw
    cases hw
  | construct priority affinity =>
    simp only [call, check_ok, bind_ok, pure, Except.pure, Except.ok.injEq] at h
    obtain ⟨k, -, rfl⟩ := h
    rw [hgoto] at hw
    cases hw
  | signalOne o acquired | signalAll o acquired =>
    cases h
    rw [hgoto] at hw
    cases hw
  | waitForAny os =>
    simp only [call, check_ok, waitForAny, bind_ok, cortosAssert_ok, exists_const] at h
    obtain ⟨-, -, g, -, h⟩ := h
    rw [block_fiber h] at hw
    exact hw
  | waitUntil os b => exact congrArg some (hwait h)
  | join n =>
    rw [call] at h
    split at h
    · exact congrArg some (hwait h)
    · cases h
  | lock l =>
    cases h
    rw [hgoto] at hw
    cases hw
  | tryLock l =>
    cases h
    rw [show (Machine.fiber { m with kernel := _ } t) = .user from hpc] at hw
    cases hw
  | unlock l =>
    simp only [call, check_ok, unlock, bind_ok, pure, Except.pure, Except.ok.injEq] at h
    obtain ⟨k, -, rfl⟩ := h
    rw [show (Machine.fiber { m with kernel := k } t) = .user from hpc] at hw
    cases hw
  | ret =>
    cases h
    rw [hgoto] at hw
    cases hw

/-- A step of a core that is in the fiber of its current thread, at a call. -/
theorem Machine.step_call {act : Act} (hcore : m.core c = .thread)
    (hcur : m.kernel.current c = some t) (hpc : m.fiber t = .user)
    (h : m.step cfg (.core c act) = .ok m') : m.call cfg c t act = .ok m' := by
  rw [step] at h
  split at h
  · simpa [coreStep, hcore, hcur, hpc] using h
  · cases h

/-- A thread in the kernel has one step to take. -/
theorem Machine.step_executing {act : Act} (hcore : m.core c = .thread)
    (hcur : m.kernel.current c = some t) (hpc : m.fiber t ≠ .user)
    (h : m.step cfg (.core c act) = .ok m') :
    ∃ b, act = .next b ∧ m.threadNext cfg c t b = .ok m' := by
  rw [step] at h
  split at h
  · cases act with
    | next b => exact ⟨b, rfl, by simpa only [coreStep, hcore, hcur] using h⟩
    | _ => simp [coreStep, hcore, hcur] at h
  · cases h

/-- The loop body of `wait_until` tests the predicate under the lock: it returns, or it
blocks. -/
theorem Machine.step_evaluate {act : Act} (hcore : m.core c = .thread)
    (hcur : m.kernel.current c = some t) {ws : List WaitableRef} {p : Predicate}
    (hpc : m.fiber t = .evaluate ws p) (h : m.step cfg (.core c act) = .ok m') :
    ∃ b, act = .next b ∧ (m.holds b p = true ∧ m' = m.goto m.kernel t .user ∨
      m.holds b p = false ∧ m.block cfg t ws (some p) = .ok m') := by
  obtain ⟨b, hact, hnext⟩ := m.step_executing hcore hcur (by simp [hpc]) h
  refine ⟨b, hact, ?_⟩
  simp only [threadNext, hpc, check_ok, evaluate, bind_ok] at hnext
  obtain ⟨g, -, hnext⟩ := hnext
  split at hnext
  · next hholds =>
    cases hnext
    exact .inl ⟨hholds, rfl⟩
  · next hholds => exact .inr ⟨by simpa using hholds, hnext⟩

/-- `wait_until` blocks only if its predicate is false under the lock. -/
theorem Machine.step_blocks {act : Act} (hcore : m.core c = .thread)
    (hcur : m.kernel.current c = some t) {ws : List WaitableRef} {p : Predicate}
    (hpc : m.fiber t = .evaluate ws p) (h : m.step cfg (.core c act) = .ok m')
    {vs : List WaitableRef} {q : Option Predicate} (hpc' : m'.fiber t = .commence vs q) :
    ∃ b, act = .next b ∧ m.holds b p = false := by
  obtain ⟨b, rfl, ⟨-, rfl⟩ | ⟨hholds, -⟩⟩ := m.step_evaluate hcore hcur hpc h
  · rw [show (m.goto m.kernel t .user).fiber t = .user from Function.update_self ..] at hpc'
    cases hpc'
  · exact ⟨b, rfl, hholds⟩

/-- A call is made by a thread in its own code. -/
theorem Machine.step_caller {act : Act} (hact : ∀ b, act ≠ .next b)
    (hcur : m.kernel.current c = some t) (h : m.step cfg (.core c act) = .ok m') :
    m.core c = .thread ∧ m.fiber t = .user := by
  rw [step] at h
  split at h
  case isFalse => cases h
  case isTrue =>
    unfold coreStep at h
    split at h
    case h_1 hcore =>
      refine ⟨hcore, ?_⟩
      rw [hcur] at h
      dsimp only at h
      split at h
      case h_1 hpc => exact hpc
      case h_2 => exact absurd rfl (hact _)
      case h_3 => cases h
    -- in its scheduler fiber a core does not make calls
    case h_7 => cases h
    all_goals exact absurd rfl (hact _)

/-- A blocked thread that still executes goes off its core. -/
theorem Machine.step_commence {act : Act} {ws : List WaitableRef} {p : Option Predicate}
    (hcore : m.core c = .thread)
    (hcur : m.kernel.current c = some t) (hpc : m.fiber t = .commence ws p)
    (h : m.step cfg (.core c act) = .ok m') : m' = m.pend m.kernel c t (.waitReturn ws p) := by
  obtain ⟨b, -, h⟩ := m.step_executing hcore hcur (by simp [hpc]) h
  simp only [threadNext, hpc, Except.ok.injEq] at h
  exact h.symm

theorem Machine.step_waitReturn {act : Act} {ws : List WaitableRef} {p : Option Predicate}
    (hcore : m.core c = .thread)
    (hcur : m.kernel.current c = some t) (hpc : m.fiber t = .waitReturn ws p)
    (h : m.step cfg (.core c act) = .ok m') : m' = m.waitReturn t ws p := by
  obtain ⟨b, -, h⟩ := m.step_executing hcore hcur (by simp [hpc]) h
  simp only [threadNext, hpc, Except.ok.injEq] at h
  exact h.symm

end Cortos
