import Cortos.Machine.WaitCycle

/-!
# The states of a thread

`ThreadControlBlock::State` has four values, and five functions assign it: `start` and
`reschedule` of the scheduler, `prepare_block`, `thread_launcher` and `set_thread_ready`.
`StateMove` is the diagram of the changes that these can make, with the core and the point at
which each is made; `thread_states` says that the system makes no other:

- only its own core dispatches a thread, preempts it and makes it ready;
- a thread blocks and terminates by its own steps;
- a Blocked thread becomes Ready before it runs again, and Terminated is final.
-/

namespace Cortos

open Lib

variable {cfg : Config} {m m' : Machine} {a a' : Life} {l : Label} {c : Nat} {t x u : ThreadRef}

/-- The changes of `tcb->state`. -/
inductive StateMove (m : Machine) (l : Label) (t : ThreadRef) : ThreadState → ThreadState → Prop
  /-- `start` or `reschedule` of its core selects the thread. -/
  | dispatch {c : Nat} {b : Bool} (hl : l = .core c (.next b)) (hpin : m.kernel.pinnedCore t = c)
    (hcore : m.core c = .boot ∨ m.core c = .switch) : StateMove m l t .ready .running
  /-- `reschedule` puts the outgoing thread back. -/
  | preempt {c : Nat} {b : Bool} (hl : l = .core c (.next b)) (hcore : m.core c = .switch)
    (hcur : m.kernel.current c = some t) : StateMove m l t .running .ready
  /-- `prepare_block`, called by the thread. -/
  | block (hact : m.acting l = some t) : StateMove m l t .running .blocked
  /-- `thread_launcher`, when `entry()` has returned. -/
  | terminate {c : Nat} (hl : l = .core c .ret) (hact : m.acting l = some t) :
    StateMove m l t .running .terminated
  /-- `set_thread_ready` by a signaller on the core of the thread. -/
  | wake {c : Nat} (hwakes : m.wakes l = some t) (hact : ∃ b, l = .core c (.next b))
    (hpin : m.kernel.pinnedCore t = c) : StateMove m l t .blocked .ready
  /-- `set_thread_ready` from the inbox of the core of the thread. -/
  | drain {c : Nat} {b : Bool} (hl : l = .core c (.next b)) (hpin : m.kernel.pinnedCore t = c)
    (hcore : m.core c = .drain) : StateMove m l t .blocked .ready

/-- A step that moves one thread to another phase. -/
theorem StateMove.update {phase phase' : ThreadRef → Phase} {φ : Phase}
    (hphase : phase' = Function.update phase x φ)
    (hx : t = x → φ.state = (phase x).state ∨ StateMove m l x (phase x).state φ.state) :
    (phase' t).state = (phase t).state ∨ StateMove m l t (phase t).state (phase' t).state := by
  subst hphase
  by_cases htx : t = x
  · subst htx
    rw [Function.update_self]
    exact hx rfl
  · rw [Function.update_of_ne htx]
    exact .inl rfl

/-- A thread that is being made ready has just been constructed, or is woken. -/
theorem Sim.claimed_phase (h : Sim cfg m a) (hcore : m.core c = .thread)
    (hcur : m.kernel.current c = some u) {k : Kernel} {κ : Claim} {pc : ThreadPc}
    {resched b : Bool} (hafter : AfterReady m c u k resched x κ pc m') :
    a.phase x = .pinned u ∨
      a.phase x = .torn u ∧ m.wakes (.core c (.next b)) = some x := by
  have hclaim : (m.fiber u).claim = some (x, κ) ∧ κ ≠ .tearDown := by
    cases hafter with
    | register hpc | setReady hpc => simp [hpc, ThreadPc.claim]
  obtain ⟨-, -, ⟨hp, -⟩ | ⟨hp, -⟩⟩ := h.claimed hcore hcur hclaim.1 hclaim.2
  · exact .inl hp
  · refine .inr ⟨hp, ?_⟩
    have hκ := (h.claims x u κ).mp hclaim.1
    rw [hp] at hκ
    cases hκ
    rw [m.wakes_acting hcore hcur]
    exact hafter.wakesUp.mpr rfl

/-- A thread in an inbox is Blocked, or has just been constructed. -/
theorem Phase.inInbox_state {φ : Phase} (h : φ.inInbox = true) :
    φ.state = .ready ∨ φ.state = .blocked := by
  cases φ with
  | postedNew => exact .inl rfl
  | posted => exact .inr rfl
  | _ => cases h

/-- A thread that its core selects is Ready, unless it was running there. -/
theorem Sim.selects_state (h : Sim cfg m a) {next : ThreadRef} (hc : c < cfg.cores)
    (hsel : a.Selects c next a') (hcur : m.kernel.current c ≠ some next) :
    (a.phase next).state = .ready ∧ m.kernel.pinnedCore next = c := by
  have hpin : m.kernel.pinnedCore next = c := by
    cases hsel with
    | idle hempty => exact (h.idle c).2.1
    | head hq hfirst => exact ((h.queued c _ next).mp (hq ▸ List.mem_cons_self)).2.2.1
  refine ⟨?_, hpin⟩
  cases hsel with
  | idle hempty =>
    rcases (h.idle c).2.2 with ⟨-, hge⟩ | ⟨hp | hp, -⟩
    · exact absurd hc (Nat.not_lt.mpr hge)
    · rw [hp]
      rfl
    · have hrunning := (h.thread _).running hp
      rw [hpin] at hrunning
      exact absurd hrunning hcur
  | head hq hfirst =>
    rw [((h.queued c _ next).mp (hq ▸ List.mem_cons_self)).1]
    rfl

theorem Life.rotated_self {p : Nat} (hrun : a.phase t = .running) :
    (a.rotated c p t).phase t = .ready := by
  rw [Life.rotated, if_pos hrun]
  split <;> exact Function.update_self ..

/-- **Step lemma.** -/
theorem Trans.stateMove (ht : Trans cfg m a l m' a') (h : Sim cfg m a)
    (hborn : a.phase t ≠ .unborn) :
    (a'.phase t).state = (a.phase t).state ∨
      StateMove m l t (a.phase t).state (a'.phase t).state := by
  have hnew : t ≠ .user m.kernel.threads := by
    rintro rfl
    exact hborn ((h.born _).mpr (Nat.le_refl _))
  cases ht with
  | constructBoot | construct => exact StateMove.update rfl fun heq => absurd heq hnew
  | start | thread | terminate | coreMove => exact .inl rfl
  | @block c u act ws p links hcore hcur hpc hpos hlen hnd hsim =>
    refine StateMove.update rfl fun _ => .inr ?_
    have hrun : a.phase u = .running := by
      rcases h.acting_phase hcore hcur with hp | hp | hp <;>
        rcases hpc with ⟨hpc, -⟩ | ⟨q, hpc, -⟩ <;> simp_all [ThreadPc.exiting]
    rw [hrun]
    exact .block (Machine.acting_core hcore hcur)
  | @ret c u hcore hcur hpc =>
    refine StateMove.update rfl fun _ => .inr ?_
    have hrun : a.phase u = .running := by
      rcases h.acting_phase hcore hcur with hp | hp | hp <;> simp_all [ThreadPc.exiting]
    rw [hrun]
    exact .terminate rfl (Machine.acting_core hcore hcur)
  | win hcore hcur hpc hx =>
    refine StateMove.update rfl fun _ => .inl ?_
    rw [hx]
    rfl
  | tearDown hcore hcur hpc hx hsim =>
    refine StateMove.update rfl fun _ => .inl ?_
    rw [hx]
    rfl
  | @ready c u x b κ pc m' hcore hcur hafter hpin =>
    refine StateMove.update rfl fun _ => ?_
    rcases h.claimed_phase hcore hcur hafter (b := b) with hp | ⟨hp, hwakes⟩
    · rw [hp]
      exact .inl rfl
    · rw [hp]
      exact .inr (.wake hwakes ⟨b, rfl⟩ hpin)
  | @post c u x b κ pc m' hcore hcur hafter hpin hroom =>
    -- the state is assigned when the request is taken out of the inbox
    refine StateMove.update rfl fun _ => .inl ?_
    rcases h.claimed_phase hcore hcur hafter (b := b) with hp | ⟨hp, -⟩ <;> rw [hp] <;> rfl
  | boot hrun hc hcore hpop hsel hsim =>
    refine StateMove.update hsel.phase fun _ => .inr ?_
    have hcur := (h.boot _).mp hcore
    obtain ⟨hst, hpin⟩ := h.selects_state hc hsel (by simp [hcur])
    rw [hst]
    exact .dispatch rfl hpin (.inl hcore)
  | @drainOne c x rest hcore hin =>
    obtain ⟨hinbox, hpin⟩ := ((h.inbox c).2 x).mp (hin ▸ List.mem_cons_self)
    refine StateMove.update rfl fun _ => ?_
    rcases Phase.inInbox_state hinbox with hst | hst
    · exact .inl hst.symm
    · rw [hst]
      exact .inr (.drain rfl hpin hcore)
  | @switch c u next b k a' hc hcore hcur hnr hpop hsel hsim =>
    obtain ⟨hrot, hnot, -⟩ := h.rotate hcore hcur
    have hcur' : (m.kernel.rotated c u).current c = some u := by
      obtain ⟨bits, hbits⟩ := (m.kernel.rotated_fields c u).2.2.2.2 c
      rw [Kernel.current, hbits]
      exact hcur
    have hother : t ≠ next → a'.phase t = (a.rotated c (m.kernel.priority u) u).phase t :=
      fun hne => by rw [hsel.phase, Function.update_of_ne hne]
    by_cases htu : t = u
    · subst htu
      by_cases hrun : a.phase t = .running
      · by_cases htn : t = next
        · -- it is selected again
          subst htn
          rw [hrun, hsel.phase, Function.update_self]
          exact .inl rfl
        · rw [hother htn, Life.rotated_self hrun, hrun]
          exact .inr (.preempt rfl hcore hcur)
      · have hsame : a.rotated c (m.kernel.priority t) t = a := if_neg hrun
        have htn : t ≠ next := by
          rintro rfl
          rcases hrot.selects_phase hsel with hp | hp | hp <;> rw [hsame] at hp
          · exact hnr hp
          · exact hrun hp
          · exact hborn hp
        exact .inl (by rw [hother htn, hsame])
    · have hkeep := Life.rotated_phase (a := a) (c := c) (p := m.kernel.priority u) htu
      by_cases htn : t = next
      · subst htn
        obtain ⟨hst, hpin⟩ := hrot.selects_state hc hsel (by simpa [hcur'] using Ne.symm htu)
        rw [hkeep] at hst
        rw [hst, hsel.phase, Function.update_self]
        refine .inr (.dispatch rfl ?_ (.inr hcore))
        exact (congrArg (fun f => f.2.2) (Kernel.fixed_rotated _ c u t)).symm.trans hpin
      · exact .inl (by rw [hother htn, hkeep])

/-- **The states of a thread.** On any number of cores, a step leaves the state of a thread as
it is or makes one of the changes of `StateMove`. -/
theorem thread_states (hreach : Reachable cfg m) (hvalid : l.Valid cfg)
    (hstep : m.step cfg l = .ok m') (ht : m.kernel.Registered cfg t) :
    m'.kernel.state t = m.kernel.state t ∨
      StateMove m l t (m.kernel.state t) (m'.kernel.state t) := by
  obtain ⟨a, ha⟩ := hreach.sim
  obtain ⟨a', htrans⟩ := ha.trans hvalid hstep
  rw [(ha.thread t).state, ((htrans.sim ha).thread t).state]
  exact htrans.stateMove ha (ha.registered_iff.mp ht)

/-- Two threads of one priority; the first yields and the second is dispatched. -/
theorem yield_dispatches : ∃ m m' : Machine, Reachable oneCore m ∧
    m.step oneCore (.core 0 (.next false)) = .ok m' ∧
    StateMove m (.core 0 (.next false)) (.user 1) .ready .running := by
  have hrun : RunsTo oneCore (fun _ l => l.Valid oneCore)
      (fun m => m.kernel.threads = 2 ∧ m.kernel.state (.user 1) = .ready ∧
        ((m.step oneCore (.core 0 (.next false))).toOption.map fun m' =>
          m'.kernel.state (.user 1)) = some .running)
      ([.construct 5 1#32, .construct 5 1#32, .start] ++ steps 0 1 ++ [.core 0 .yield] ++
        steps 0 3) := by decide +kernel
  obtain ⟨m, hreach, hthreads, hready, hrunning⟩ := hrun.reach
  cases hstep : m.step oneCore (.core 0 (.next false)) with
  | error e =>
    rw [hstep] at hrunning
    cases hrunning
  | ok m' =>
    rw [hstep] at hrunning
    have hstate : m'.kernel.state (.user 1) = .running := Option.some.inj hrunning
    have hreg : m.kernel.Registered oneCore (.user 1) := by
      show 1 < m.kernel.threads
      rw [hthreads]
      decide
    refine ⟨m, m', hreach, hstep, ?_⟩
    rcases thread_states (l := .core 0 (.next false)) hreach trivial hstep hreg with hsame | hmove
    · rw [hstate, hready] at hsame
      cases hsame
    · rwa [hready, hstate] at hmove

end Cortos
