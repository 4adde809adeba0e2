import Cortos.Machine.Observation

/-!
# Fixed-priority dispatch

Every place that makes a thread ready on the core it executes on compares the
thread with the current one and, if it is more urgent, gives the core up before
it returns to the application: the constructor of `Thread` at once, a signal at
its end. `reschedule` picks from the lowest non-empty queue. So while a thread
is in its own code, nothing in the ready matrix of its core is more urgent.

The invariant is `DispatchOrder`: it can only be broken for the current thread
of a core, by its own steps, and while a signal of that thread has noted that a
reschedule is due (`ThreadPc.pendsReschedule`).
-/

namespace Cortos

open Lib

variable {cfg : Config} {m m' : Machine} {a a' : Life} {c : Nat} {t x u : ThreadRef}

/-- A signal that will ask for a reschedule when it returns. -/
def ThreadPc.pendsReschedule : ThreadPc → Bool
  | pick s | wake s _ _ | tryWin s _ _ _ _ _ | teardown s _ _ | setReady s _ => s.reschedule
  | _ => false

/-- Nothing in the ready matrix of core `c` is more urgent than `t`. -/
def MostUrgent (m : Machine) (a : Life) (c : Nat) (t : ThreadRef) : Prop :=
  ∀ p, ∀ u ∈ a.queue (c, p), m.kernel.priority t ≤ p

/-- Executing threads are the most urgent of their core, unless a reschedule is
due. -/
def DispatchOrder (m : Machine) (a : Life) : Prop :=
  ∀ c t, m.core c = .thread → m.kernel.current c = some t →
    (m.fiber t).pendsReschedule = false → MostUrgent m a c t

/-- A step of core `c` can only break the order on core `c`. -/
theorem Trans.dispatchOrder_of_core {act : Act} (ht : Trans cfg m a (.core c act) m' a')
    (h : Sim cfg m a) (hI : DispatchOrder m a)
    (hc : ∀ t, m'.core c = .thread → m'.kernel.current c = some t →
      (m'.fiber t).pendsReschedule = false → MostUrgent m' a' c t) : DispatchOrder m' a' := by
  intro d u hd hu hpend
  by_cases hdc : d = c
  · subst hdc
    exact hc u hd hu hpend
  · obtain ⟨hcore, hqueue⟩ := ht.other_core hdc
    have hcur : m'.kernel.current d = m.kernel.current d := by
      refine (ht.current d).resolve_right ?_
      rintro ⟨b, hb, -⟩
      cases hb
      exact hdc rfl
    rw [hcur] at hu
    rw [hcore] at hd
    have hfiber : m'.fiber u = m.fiber u := by
      refine (ht.fiber u).resolve_right ?_
      rintro ⟨e, act', hl, -, he⟩
      cases hl
      exact hdc ((h.current d u hu).1.symm.trans (h.current c u he).1)
    rw [hfiber] at hpend
    intro p v hv
    rw [hqueue] at hv
    rw [ht.priority h fun hp => h.not_current_of_unborn hp d hu]
    exact hI d u hd hu hpend p v hv

/-- A selected thread is the most urgent. -/
theorem Life.Selects.mostUrgent {next : ThreadRef} (hsel : a.Selects c next a')
    (hprio : ∀ p, next ∈ a.queue (c, p) → m.kernel.priority next = p) :
    MostUrgent m a' c next := by
  intro q u hu
  cases hsel with
  | idle hempty =>
    change u ∈ a.queue (c, q) at hu
    rw [hempty q] at hu
    cases hu
  | @head p t rest hq hfirst =>
    rw [hprio p (by simp [hq])]
    refine Nat.le_of_not_lt fun hlt => ?_
    have : (a.dequeue c p next rest).queue (c, q) = a.queue (c, q) :=
      Function.update_of_ne (fun he => Nat.ne_of_lt hlt (Prod.ext_iff.mp he).2) _ _
    rw [this, hfirst q hlt] at hu
    cases hu

/-- The current thread is left alone: queues and its priority stay. -/
theorem MostUrgent.congr (h : MostUrgent m a c t)
    (hprio : m'.kernel.priority t = m.kernel.priority t)
    (hqueue : ∀ p, a'.queue (c, p) = a.queue (c, p)) : MostUrgent m' a' c t := by
  intro p u hu
  rw [hqueue] at hu
  rw [hprio]
  exact h p u hu

/-- A thread that is not more urgent has been made ready. -/
theorem MostUrgent.enqueue (h : MostUrgent m a c t)
    (hprio : m'.kernel.priority t = m.kernel.priority t)
    (hle : m.kernel.priority t ≤ m.kernel.priority x) :
    MostUrgent m' (a.enqueue c (m.kernel.priority x) x) c t := by
  intro p u hu
  rw [hprio]
  by_cases hp : p = m.kernel.priority x
  · exact hp ▸ hle
  · have : (a.enqueue c (m.kernel.priority x) x).queue (c, p) = a.queue (c, p) :=
      Function.update_of_ne (fun he => hp (Prod.ext_iff.mp he).2) _ _
    rw [this] at hu
    exact h p u hu

theorem Machine.pend_core (m : Machine) (k : Kernel) (c : Nat) (t : ThreadRef) (pc : ThreadPc) :
    (m.pend k c t pc).core c ≠ .thread := by
  simp [pend]

/-- A signal that returns and stays on its core has not asked for a reschedule. -/
theorem Machine.signalReturn_stays {k : Kernel} {s : SignalCall}
    (h : (m.signalReturn k c t s).core c = .thread) : s.reschedule = false := by
  rw [signalReturn] at h
  split at h
  · exact absurd h (m.pend_core k c t _)
  · next hr => exact Bool.eq_false_of_not_eq_true hr

theorem Machine.signalNext_stays {k : Kernel} {s : SignalCall}
    (h : (m.signalNext k c t s).core c = .thread)
    (hpc : (if s.all then ThreadPc.pick s else s.ret).pendsReschedule = false) :
    s.reschedule = false := by
  rw [signalNext] at h
  cases hall : s.all with
  | true => simpa [hall, ThreadPc.pendsReschedule] using hpc
  | false =>
    rw [hall] at h
    exact signalReturn_stays h

/-- A local step that stays on its core leaves no reschedule behind. -/
theorem LocalStep.pends {act : Act} {pc : ThreadPc} (hs : LocalStep cfg m a c t act pc m')
    (hcore : m'.core c = .thread) (hpc' : pc.pendsReschedule = false) :
    (m.fiber t).pendsReschedule = false := by
  cases hs with
  | pickNone hpc hnone =>
    rw [hpc]
    exact Machine.signalReturn_stays hcore
  | lost hpc hdone =>
    rw [hpc]
    exact Machine.signalNext_stays hcore hpc'
  | pickSome hpc hbest => rw [hpc]; exact hpc'
  | wake hpc hheld => rw [hpc]; exact hpc'
  | _ => rw [‹m.fiber t = _›]; rfl

/-- Making `x` ready and staying on the core: no reschedule is due, neither
before nor because of `x`. -/
theorem AfterReady.pends {k : Kernel} {resched : Bool} {κ : Claim} {pc : ThreadPc}
    (h : AfterReady m c t k resched x κ pc m') (hcore : m'.core c = .thread)
    (hpc' : pc.pendsReschedule = false) :
    (m.fiber t).pendsReschedule = false ∧ resched = false := by
  cases h with
  | register hpc =>
    rw [hpc]
    cases resched with
    | false => exact ⟨rfl, rfl⟩
    | true => exact absurd hcore (m.pend_core k c t _)
  | @setReady s s' hpc hs =>
    have hall : s'.all = s.all := by rw [hs]
    have hret : s'.ret = s.ret := by rw [hs]; rfl
    rw [← hall, ← hret] at hpc'
    have := Machine.signalNext_stays hcore hpc'
    rw [hs, Bool.or_eq_false_iff] at this
    rw [hpc]
    exact this

/-- **Step lemma**: dispatch order is kept. -/
theorem Trans.dispatchOrder {l : Label} (ht : Trans cfg m a l m' a') (h : Sim cfg m a)
    (hW : CoresWait m) (hI : DispatchOrder m a) : DispatchOrder m' a' := by
  have hprio : ∀ {c t}, m.kernel.current c = some t →
      m'.kernel.priority t = m.kernel.priority t := fun {c t} hcur =>
    ht.priority h fun hp => h.not_current_of_unborn hp c hcur
  cases l with
  | construct priority affinity =>
    cases ht with
    | constructBoot hrun hd hp =>
      intro d u hd' hu hpend
      rw [show m.core d = .boot from hW hrun d] at hd'
      cases hd'
  | start =>
    cases ht with
    | start hrun hpos =>
      intro d u hd hu hpend
      rw [show m.core d = .boot from hW hrun d] at hd
      cases hd
  | core c act =>
    refine ht.dispatchOrder_of_core h hI fun t hc' hcur' hpend => ?_
    have hsel := ht.current c
    have hthread : ∀ {u}, m.kernel.current c = some u → m.core c = .thread → u = t := by
      intro u hu hcore
      have hsame := hsel.resolve_right (by rintro ⟨b, -, hb | hb⟩ <;> rw [hcore] at hb <;> cases hb)
      rw [hsame, hu] at hcur'
      exact Option.some.inj hcur'
    have hdispatched : ∀ {k : Kernel} {next : ThreadRef},
        (m.coreGoto (Scheduler.dispatch k c next) c .thread).kernel.current c = some t →
          next = t := by
      intro k next hnext
      rw [show (m.coreGoto (Scheduler.dispatch k c next) c .thread).kernel.current c = some next
        from (Kernel.current_dispatch ..).trans (if_pos rfl)] at hnext
      exact Option.some.inj hnext
    cases ht with
    | thread hcore hcur hs =>
      obtain rfl := hthread hcur hcore
      rw [hs.frame.fiber, Function.update_self] at hpend
      exact (hI c _ hcore hcur (hs.pends hc' hpend)).congr (hprio hcur) fun _ => rfl
    | construct hcore hcur hpc hd hp =>
      obtain rfl := hthread hcur hcore
      exact (hI c _ hcore hcur (by rw [hpc]; rfl)).congr (hprio hcur) fun _ => rfl
    | block hcore hcur hpc hpos hlen hnd hsim =>
      obtain rfl := hthread hcur hcore
      refine (hI c _ hcore hcur ?_).congr (hprio hcur) fun _ => rfl
      rcases hpc with ⟨hpc, -⟩ | ⟨q, hpc, -⟩ <;> rw [hpc] <;> rfl
    | ret hcore hcur hpc | terminate hcore hcur hpc =>
      obtain rfl := hthread hcur hcore
      exact (hI c _ hcore hcur (by rw [hpc]; rfl)).congr (hprio hcur) fun _ => rfl
    | win hcore hcur hpc | tearDown hcore hcur hpc =>
      obtain rfl := hthread hcur hcore
      refine (hI c _ hcore hcur ?_).congr (hprio hcur) fun _ => rfl
      simpa [Machine.goto, hpc, ThreadPc.pendsReschedule] using hpend
    | @ready _ _ x _ _ _ _ hcore hcur hafter hpin =>
      obtain rfl := hthread hcur hcore
      have hf : ReadyFrame cfg _ _ _ _ _ _ _ _ := hafter.frame
      rw [hf.fiber, Function.update_self] at hpend
      obtain ⟨hold, hpre⟩ := hafter.pends hc' hpend
      refine (hI c _ hcore hcur hold).enqueue (hprio hcur) ?_
      simpa [Kernel.preempts, Scheduler.currentThreadPriority, hcur] using hpre
    | post hcore hcur hafter hpin hroom =>
      obtain rfl := hthread hcur hcore
      have hf : ReadyFrame cfg _ _ _ _ _ _ _ _ := hafter.frame
      rw [hf.fiber, Function.update_self] at hpend
      exact (hI c _ hcore hcur (hafter.pends hc' hpend).1).congr (hprio hcur) fun _ => rfl
    | @boot _ _ next k _ hrun hc hcore hpop hselects hsim =>
      obtain rfl := hdispatched hcur'
      refine hselects.mostUrgent fun p hp => ?_
      exact (Kernel.priority_selected hpop next).trans ((h.queued c p next).mp hp).2.2.2
    | coreMove hmove => cases hmove <;> simp [Machine.coreGoto] at hc'
    | drainOne hcore hin => rw [show m.core c = .thread from hc'] at hcore; cases hcore
    | @switch _ u next _ k _ hc hcore hcur hnr hpop hselects hsim =>
      obtain rfl := hdispatched hcur'
      refine hselects.mostUrgent fun p hp => ?_
      have hrot := (h.rotate hcore hcur).1
      exact (Kernel.priority_selected hpop next).trans ((hrot.queued c p next).mp hp).2.2.2

/-- **Fixed-priority dispatch**: while a thread is in its own code, no thread in
the ready matrix of its core is more urgent. -/
theorem fixed_priority_dispatch (hreach : Reachable cfg m) (hcore : m.core c = .thread)
    (hcur : m.kernel.current c = some t) (hpc : m.fiber t = .user ∨ m.fiber t = .idle) :
    ∀ p, ∀ u ∈ m.kernel.readyQueue c p, m.kernel.priority t ≤ m.kernel.priority u := by
  obtain ⟨a, h, -, hI⟩ := reach_invariant (I := fun m a => CoresWait m ∧ DispatchOrder m a)
    (fun _ _ hv => hv) ⟨fun _ _ => rfl, fun _ _ hc => nomatch hc⟩
    (fun hs hI _ ht => ⟨ht.coresWait hI.1, ht.dispatchOrder hs hI.1 hI.2⟩) hreach
  intro p u hu
  rw [h.readyQueue_eq] at hu
  rw [((h.queued c p u).mp hu).2.2.2]
  refine hI c t hcore hcur ?_ p u hu
  rcases hpc with hpc | hpc <;> rw [hpc] <;> rfl

/-- A thread constructs a less urgent one. -/
theorem fixed_priority_dispatch_construct :
    ∃ m : Machine, m.kernel.current 0 = some (.user 0) ∧ m.fiber (.user 0) = .user ∧
      m.kernel.readyQueue 0 7 = [.user 1] ∧
      ∀ p, ∀ u ∈ m.kernel.readyQueue 0 p, m.kernel.priority (.user 0) ≤ m.kernel.priority u := by
  have hrun : RunsTo oneCore (fun _ l => l.Valid oneCore)
      (fun m => m.core 0 = .thread ∧ m.kernel.current 0 = some (.user 0) ∧
        m.fiber (.user 0) = .user ∧ m.kernel.readyQueue 0 7 = [.user 1])
      ([.construct 5 1#32, .start] ++ steps 0 1 ++ [.core 0 (.construct 7 1#32)] ++ steps 0 1) := by
    decide +kernel
  obtain ⟨m, hreach, hcore, hcur, hpc, hq⟩ := hrun.reach
  exact ⟨m, hcur, hpc, hq, fixed_priority_dispatch hreach hcore hcur (.inl hpc)⟩

end Cortos
