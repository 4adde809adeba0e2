import Cortos.Machine.Observation

/-!
# Only its own core touches a scheduler

The first invariant that `kernel.cpp` lists: the ready matrix and the current thread
of a core are changed by that core alone, and other cores go through its inbox.
`owner_only_mutation` states it over everything a step changes. A step of core `c`
has these effects on another core `d` and no others:

- `Scheduler.Posted`: requests appended to the inbox, and the count of pinned threads;
- `Tcb.Rewaited`: wait group and wait nodes of the threads pinned to `d`.

The heads, the tails and the links inside the threads follow from the abstract state:
the ready queues of `d` are the same lists before and after, and the lists determine
every pointer.
-/

namespace Cortos

open Lib

variable {cfg : Config} {m m' : Machine} {a a' : Life} {c d : Nat} {t x u : ThreadRef}

/-- What other cores do to a scheduler: they append to the inbox and count a thread
that is pinned to it. -/
def Scheduler.Posted (s s' : Scheduler) : Prop :=
  ∃ n posted, s' = { s with pinnedThreadCounter := n, inbox := s.inbox ++ posted }

theorem Scheduler.Posted.of_eq {s s' : Scheduler} (h : s' = s) : Scheduler.Posted s s' :=
  ⟨s.pinnedThreadCounter, [], by rw [h, List.append_nil]⟩

/-- What other cores do to a thread: they resolve and tear down its wait. -/
def Tcb.Rewaited (b b' : Tcb) : Prop :=
  ∃ group nodes, b' = { b with waitGroup := group, waitNodes := nodes }

theorem Tcb.Rewaited.of_eq {b b' : Tcb} (h : b' = b) : Tcb.Rewaited b b' :=
  ⟨b.waitGroup, b.waitNodes, h⟩

/-- What a step of another core leaves of core `d`: apart from appended requests and
the count of pinned threads, its scheduler; its ready matrix; where its scheduler
fiber is; and of each of its threads, apart from wait group and wait nodes, the
control block, the links and where it is in its code. -/
structure Untouched (cfg : Config) (m m' : Machine) (d : Nat) : Prop where
  scheduler : Scheduler.Posted (m.kernel.schedulers d) (m'.kernel.schedulers d)
  matrix : ∀ p, m'.kernel.ready.head (d, p) = m.kernel.ready.head (d, p) ∧
    m'.kernel.ready.tail (d, p) = m.kernel.ready.tail (d, p)
  core : m'.core d = m.core d
  thread : ∀ x, m.kernel.Registered cfg x → m.kernel.pinnedCore x = d →
    Tcb.Rewaited (m.kernel.tcbs x) (m'.kernel.tcbs x) ∧
      m'.kernel.ready.next x = m.kernel.ready.next x ∧
      m'.kernel.ready.prev x = m.kernel.ready.prev x ∧ m'.fiber x = m.fiber x

/-! ## Schedulers -/

theorem Kernel.popNext_other {k k' : Kernel} {next : ThreadRef}
    (h : Scheduler.popNext k c = .ok (next, k')) (hd : d ≠ c) :
    k'.schedulers d = k.schedulers d := by
  have hbest : (k.popBestThread c).2.schedulers d = k.schedulers d := by
    rw [popBestThread]
    split
    · rfl
    · dsimp only
      split
      · exact Function.update_of_ne hd _ _
      · rfl
  rw [Scheduler.popNext] at h
  split at h
  · next hp =>
    cases h
    rw [hp] at hbest
    exact hbest
  · next hp _ =>
    cases h
    rw [hp] at hbest
    exact hbest
  · cases h

theorem Kernel.dispatch_other (k : Kernel) (t : ThreadRef) (hd : d ≠ c) :
    (Scheduler.dispatch k c t).schedulers d = k.schedulers d :=
  Function.update_of_ne hd _ _

theorem Kernel.makeReady_other (k : Kernel) (x : ThreadRef) (hd : d ≠ c) :
    (k.makeReady c x).schedulers d = k.schedulers d :=
  Function.update_of_ne hd _ _

theorem Kernel.rotated_other (k : Kernel) (t : ThreadRef) (hd : d ≠ c) :
    (k.rotated c t).schedulers d = k.schedulers d := by
  rw [rotated]
  split
  · split
    · rfl
    · exact k.makeReady_other t hd
  · rfl

theorem LocalStep.scheduler_other {act : Act} {pc : ThreadPc}
    (hs : LocalStep cfg m a c t act pc m') (hd : d ≠ c) :
    m'.kernel.schedulers d = m.kernel.schedulers d := by
  have hreturn : ∀ s, (m.signalReturn m.kernel c t s).kernel = m.kernel := by
    intro s
    rw [Machine.signalReturn]
    split <;> rfl
  cases hs with
  | lock hpc => exact Function.update_of_ne hd _ _
  | unlock hpc hk =>
    obtain ⟨-, rfl⟩ := Scheduler.enablePreemption_ok.mp hk
    exact Function.update_of_ne hd _ _
  | pickNone hpc hnone => rw [hreturn]
  | lost hpc hdone =>
    rw [Machine.signalNext]
    split
    · rfl
    · rw [hreturn]
  | @waitReturn b ws p hpc => cases p <;> rfl
  | spin hpc =>
    rw [Machine.spin]
    split <;> rfl
  | _ => rfl

/-- A step of core `c` posts to the scheduler of another core at most. -/
theorem Trans.scheduler_posted {act : Act} (ht : Trans cfg m a (.core c act) m' a')
    (hd : d ≠ c) : Scheduler.Posted (m.kernel.schedulers d) (m'.kernel.schedulers d) := by
  cases ht with
  | thread hcore hcur hs => exact .of_eq (hs.scheduler_other hd)
  | @construct _ t priority affinity e hcore hcur hpc he hprio =>
    obtain ⟨n, hn⟩ := m.kernel.constructed_schedulers cfg priority affinity e d
    refine ⟨n, [], ?_⟩
    rw [List.append_nil]
    exact hn
  | ready hcore hcur hafter hpin =>
    have hf : ReadyFrame cfg _ _ _ _ _ _ _ _ := hafter.frame
    rw [hf.kernel]
    exact .of_eq (Kernel.makeReady_other _ _ hd)
  | @post _ t x b κ pc m' hcore hcur hafter hpin hroom =>
    have hf : ReadyFrame cfg _ _ _ _ _ _ _ _ := hafter.frame
    rw [hf.kernel, Kernel.post, Kernel.modifySched]
    by_cases hx : d = m.kernel.pinnedCore x
    · subst hx
      exact ⟨_, [x], Function.update_self ..⟩
    · exact .of_eq (Function.update_of_ne hx _ _)
  | boot hrun hc hcore hpop hsel hsim =>
    exact .of_eq ((Kernel.dispatch_other _ _ hd).trans (Kernel.popNext_other hpop hd))
  | drainOne hcore hin =>
    exact .of_eq ((Kernel.makeReady_other _ _ hd).trans (Function.update_of_ne hd _ _))
  | switch hc hcore hcur hnr hpop hsel hsim =>
    exact .of_eq (((Kernel.dispatch_other _ _ hd).trans (Kernel.popNext_other hpop hd)).trans
      (Kernel.rotated_other _ _ hd))
  | block | ret | terminate | win | tearDown | coreMove => exact .of_eq rfl

/-! ## Threads -/

/-- The current thread of core `c` is not one of another core. -/
theorem Sim.ne_current (h : Sim cfg m a) (hcur : m.kernel.current c = some t)
    (hx : m.kernel.pinnedCore x ≠ c) : x ≠ t := by
  rintro rfl
  exact hx (h.current c x hcur).1

/-- A step of core `c` changes at most the wait of a thread of another core. -/
theorem Trans.tcb_rewaited {act : Act} (ht : Trans cfg m a (.core c act) m' a')
    (h : Sim cfg m a) (hborn : a.phase x ≠ .unborn) (hx : m.kernel.pinnedCore x ≠ c) :
    Tcb.Rewaited (m.kernel.tcbs x) (m'.kernel.tcbs x) := by
  have hnew : x ≠ .user m.kernel.threads := by
    rintro rfl
    exact hborn ((h.born _).mpr (Nat.le_refl _))
  -- the thread that core `c` selects is pinned to it
  have hnext : ∀ {next}, m'.kernel.current c = some next → x ≠ next := by
    intro next hcur
    refine (ht.sim h).ne_current hcur ?_
    rw [show m'.kernel.pinnedCore x = m.kernel.pinnedCore x from
      congrArg (fun f => f.2.2) (ht.fixed hnew)]
    exact hx
  cases ht with
  | thread hcore hcur hs => exact .of_eq (by rw [hs.frame.kernel.tcbs])
  | construct hcore hcur hpc he hprio =>
    refine .of_eq ?_
    show (Kernel.constructed _ _ _ _ _).tcbs x = _
    rw [Kernel.constructed_tcbs, Function.update_of_ne hnew]
  | block hcore hcur hpc hpos hlen hnd hsim =>
    exact .of_eq (Function.update_of_ne (h.ne_current hcur hx) _ _)
  | ret hcore hcur hpc => exact .of_eq (Function.update_of_ne (h.ne_current hcur hx) _ _)
  | terminate hcore hcur hpc => exact .of_eq (Function.update_of_ne (h.ne_current hcur hx) _ _)
  | @win _ t b s n wait i ws hcore hcur hpc hw =>
    by_cases hn : x = n.owner
    · subst hn
      exact ⟨_, _, Function.update_self ..⟩
    · exact .of_eq (Function.update_of_ne hn _ _)
  | @tearDown _ t y b s ws links hcore hcur hpc hw hsim =>
    by_cases hy : x = y
    · subst hy
      exact ⟨_, _, Function.update_self ..⟩
    · exact .of_eq (Function.update_of_ne hy _ _)
  | @ready _ t y b κ pc m' hcore hcur hafter hpin =>
    have hf : ReadyFrame cfg _ _ _ _ _ _ _ _ := hafter.frame
    have hy : x ≠ y := by
      rintro rfl
      exact hx hpin
    rw [hf.kernel, Kernel.makeReady_tcbs, Function.update_of_ne hy]
    exact .of_eq rfl
  | post hcore hcur hafter hpin hroom =>
    have hf : ReadyFrame cfg _ _ _ _ _ _ _ _ := hafter.frame
    rw [hf.kernel]
    exact .of_eq rfl
  | @boot _ b next k _ hrun hc hcore hpop hsel hsim =>
    have hne : x ≠ next := hnext ((Kernel.current_dispatch ..).trans (if_pos rfl))
    exact .of_eq ((Function.update_of_ne hne _ _).trans
      (congrFun (Kernel.popNext_fields _ hpop).1 x))
  | coreMove hmove => exact .of_eq rfl
  | @drainOne _ y rest hcore hin =>
    have hy : x ≠ y := by
      rintro rfl
      exact hx (((h.inbox c).2 x).mp (by rw [hin]; exact List.mem_cons_self)).2
    exact .of_eq (Function.update_of_ne hy _ _)
  | @switch _ t next b k _ hc hcore hcur hnr hpop hsel hsim =>
    have hne : x ≠ next := hnext ((Kernel.current_dispatch ..).trans (if_pos rfl))
    have hxt := h.ne_current hcur hx
    refine .of_eq ((Function.update_of_ne hne _ _).trans
      ((congrFun (Kernel.popNext_fields _ hpop).1 x).trans ?_))
    rw [Kernel.rotated]
    split
    · split <;> exact Function.update_of_ne hxt _ _
    · rfl

/-! ## Ready matrices -/

/-- The links of a thread are determined by the queues of its core. -/
theorem Sim.links_eq (h : Sim cfg m a) (h' : Sim cfg m' a')
    (hpin : m.kernel.pinnedCore x = d) (hpin' : m'.kernel.pinnedCore x = d)
    (hq : ∀ p, a'.queue (d, p) = a.queue (d, p)) :
    m'.kernel.ready.next x = m.kernel.ready.next x ∧
      m'.kernel.ready.prev x = m.kernel.ready.prev x := by
  by_cases hx : ∃ p, x ∈ a.queue (d, p)
  · obtain ⟨p, hx⟩ := hx
    obtain ⟨pre, post, hdec⟩ := List.append_of_mem hx
    obtain ⟨hprev, hnext⟩ := h.ready.links.link (d, p) pre x post hdec
    obtain ⟨hprev', hnext'⟩ := h'.ready.links.link (d, p) pre x post ((hq p).trans hdec)
    exact ⟨hnext'.trans hnext.symm, hprev'.trans hprev.symm⟩
  · -- on no queue: both links are null, before and after
    have hfree : ∀ i, x ∉ a.queue i := by
      rintro ⟨e, p⟩ hmem
      obtain rfl : d = e := hpin.symm.trans ((h.queued e p x).mp hmem).2.2.1
      exact hx ⟨p, hmem⟩
    have hfree' : ∀ i, x ∉ a'.queue i := by
      rintro ⟨e, p⟩ hmem
      obtain rfl : d = e := hpin'.symm.trans ((h'.queued e p x).mp hmem).2.2.1
      rw [hq p] at hmem
      exact hx ⟨p, hmem⟩
    obtain ⟨hnext, hprev⟩ := h.ready.links.free x hfree
    obtain ⟨hnext', hprev'⟩ := h'.ready.links.free x hfree'
    exact ⟨hnext'.trans hnext.symm, hprev'.trans hprev.symm⟩

/-! ## The theorem -/

/-- **Owner-only mutation**: a step of core `c` leaves every other core untouched, up
to posted requests, the count of pinned threads, and the waits of its threads. -/
theorem owner_only_mutation (hreach : Reachable cfg m) {act : Act}
    (hvalid : (Label.core c act).Valid cfg) (hstep : m.step cfg (.core c act) = .ok m')
    (hdc : d ≠ c) : Untouched cfg m m' d := by
  obtain ⟨a, h⟩ := hreach.sim
  obtain ⟨a', ht⟩ := h.trans hvalid hstep
  have h' := ht.sim h
  obtain ⟨hcore, hq⟩ := ht.other_core hdc
  refine ⟨ht.scheduler_posted hdc, fun p => ?_, hcore, fun x hreg hpin => ?_⟩
  · rw [h.ready.links.head, h.ready.links.tail, h'.ready.links.head, h'.ready.links.tail, hq]
    exact ⟨rfl, rfl⟩
  · have hborn : a.phase x ≠ .unborn := h.registered_iff.mp hreg
    have hpin' : m'.kernel.pinnedCore x = d := by
      rw [← hpin]
      refine congrArg (fun f => f.2.2) (ht.fixed (u := x) ?_)
      rintro rfl
      exact hborn ((h.born _).mpr (Nat.le_refl _))
    have hx : m.kernel.pinnedCore x ≠ c := hpin ▸ hdc
    obtain ⟨hnext, hprev⟩ := h.links_eq h' hpin hpin' hq
    refine ⟨ht.tcb_rewaited h hborn hx, hnext, hprev, (ht.fiber x).resolve_right ?_⟩
    rintro ⟨e, act', hl, -, hcur⟩
    cases hl
    exact h.ne_current hcur hx rfl

/-- Thread 0 of core 0 waits on an object; thread 1 of core 1 signals it and posts
thread 0 to the inbox of core 0. -/
theorem owner_only_mutation_post :
    ∃ m m' : Machine, m.step twoCores (.core 1 (.next false)) = .ok m' ∧
      ((m.kernel.schedulers 0).inbox = [] ∧ (m'.kernel.schedulers 0).inbox = [.user 0]) ∧
      Untouched twoCores m m' 0 := by
  have hrun : RunsTo twoCores (fun _ l => l.Valid twoCores)
      (fun m => (m.kernel.schedulers 0).inbox = [] ∧
        (m.step twoCores (.core 1 (.next false))).toOption.map
          (fun m' => (m'.kernel.schedulers 0).inbox) = some [.user 0])
      ([.construct 5 1#32, .construct 5 2#32, .start] ++ steps 0 1 ++ steps 1 1 ++
        [.core 0 (.waitForAny [0])] ++ steps 0 5 ++ [.core 1 (.signalOne 0 true)] ++
        steps 1 4) := by decide +kernel
  obtain ⟨m, hreach, hempty, hposted⟩ := hrun.reach
  cases hstep : m.step twoCores (.core 1 (.next false)) with
  | error e =>
    rw [hstep] at hposted
    cases hposted
  | ok m' =>
    rw [hstep] at hposted
    have hvalid : (Label.core 1 (.next false)).Valid twoCores := trivial
    exact ⟨m, m', hstep, ⟨hempty, Option.some.inj hposted⟩,
      owner_only_mutation hreach hvalid hstep (by decide)⟩

end Cortos
