import Cortos.Hooks.Pairing

/-!
# What the hooks are told

`notify_block` and `teardown_wait_group` each take one snapshot of the thread
(`create_waiter`) and hand it to all hooks they call. A snapshot may be kept by the waitable,
so it matters that it stays right: what it contains is set when the thread is constructed.

- `Trans.affinity`, `Trans.newborn`: with `Trans.fixed`, what a step does to the fields that
  `create_waiter` reads.
- `hooks_snapshot`: every snapshot that has been taken is still that of its thread.
-/

namespace Cortos

open Lib

variable {cfg : Config} {m m' : Machine} {a a' : Life} {l : Label} {c : Nat} {t x u : ThreadRef}

theorem Kernel.affinity_update {k k' : Kernel} {b : Tcb} (h : k'.tcbs = Function.update k.tcbs x b)
    (hb : b.affinity = (k.tcbs x).affinity) (t : ThreadRef) :
    (k'.tcbs t).affinity = (k.tcbs t).affinity := by
  rw [h]
  by_cases ht : t = x
  · subst ht
    rw [Function.update_self, hb]
  · rw [Function.update_of_ne ht]

theorem Kernel.affinity_dispatch (k : Kernel) (c : Nat) (x t : ThreadRef) :
    ((Scheduler.dispatch k c x).tcbs t).affinity = (k.tcbs t).affinity :=
  Kernel.affinity_update (k := k) (x := x) (b := { k.tcbs x with state := .running }) rfl rfl t

/-- Steps keep the affinity of a thread, except that of the thread they construct. -/
theorem Trans.affinity (ht : Trans cfg m a l m' a') (hu : u ≠ .user m.kernel.threads) :
    (m'.kernel.tcbs u).affinity = (m.kernel.tcbs u).affinity := by
  have hready : ∀ (k : Kernel) c x, ((k.makeReady c x).tcbs u).affinity = (k.tcbs u).affinity :=
    fun k c x => Kernel.affinity_update (k.makeReady_tcbs c x) rfl u
  have hconstructed : ∀ priority affinity d,
      ((m.kernel.constructed cfg priority affinity d).tcbs u).affinity =
        (m.kernel.tcbs u).affinity := by
    intro priority affinity d
    rw [Kernel.constructed_tcbs, Function.update_of_ne hu]
  cases ht with
  | constructBoot hrun hd hprio => exact (hready ..).trans (hconstructed ..)
  | start | coreMove => rfl
  | thread hcore hcur hs => rw [hs.frame.kernel.tcbs]
  | construct hcore hcur hpc hd hprio => exact hconstructed ..
  | block | ret | terminate | win | tearDown => exact Kernel.affinity_update rfl (by rfl) u
  | ready hcore hcur hafter hpin =>
    have hf : ReadyFrame cfg _ _ _ _ _ _ _ _ := hafter.frame
    rw [hf.kernel, hready]
  | post hcore hcur hafter hpin hroom =>
    have hf : ReadyFrame cfg _ _ _ _ _ _ _ _ := hafter.frame
    rw [hf.kernel]
    rfl
  | boot hrun hc hcore hpop hsel hsim =>
    refine (Kernel.affinity_dispatch ..).trans ?_
    rw [(Kernel.popNext_fields _ hpop).1]
  | drainOne hcore hin => exact hready ..
  | @switch c t next b k a' hc hcore hcur hnr hpop hsel hsim =>
    obtain ⟨st, hst⟩ := (m.kernel.rotated_fields c t).2.2.2.1 u
    refine (Kernel.affinity_dispatch ..).trans ?_
    rw [(Kernel.popNext_fields _ hpop).1, hst]

/-- The priority of a new thread is the one it has been constructed with. -/
theorem Trans.newborn (ht : Trans cfg m a l m' a') :
    m'.kernel.threads = m.kernel.threads ∨
      ∃ priority affinity, (l = .construct priority affinity ∨
          ∃ c, l = .core c (.construct priority affinity)) ∧
        m'.kernel.threads = m.kernel.threads + 1 ∧
        m'.kernel.priority (.user m.kernel.threads) = priority.toNat := by
  have hnew : ∀ priority affinity d,
      (m.kernel.constructed cfg priority affinity d).priority (.user m.kernel.threads) =
        priority.toNat := by
    intro priority affinity d
    rw [Kernel.priority, Kernel.constructed_tcbs, Function.update_self]
    rfl
  cases ht with
  | constructBoot hrun hd hprio =>
    refine .inr ⟨_, _, .inl rfl, rfl, ?_⟩
    exact (congrArg Prod.fst (Kernel.fixed_makeReady _ _ _ _)).trans (hnew ..)
  | construct hcore hcur hpc hd hprio => exact .inr ⟨_, _, .inr ⟨_, rfl⟩, rfl, hnew ..⟩
  | start | block | ret | terminate | win | tearDown | coreMove | drainOne => exact .inl rfl
  | thread hcore hcur hs => exact .inl hs.frame.kernel.threads
  | ready hcore hcur hafter | post hcore hcur hafter =>
    have hf : ReadyFrame cfg _ _ _ _ _ _ _ _ := hafter.frame
    rw [hf.kernel]
    exact .inl rfl
  | boot hrun hc hcore hpop => exact .inl (congrArg Prod.fst (Kernel.popNext_fields _ hpop).2.1)
  | switch hc hcore hcur hnr hpop =>
    exact .inl ((congrArg Prod.fst (Kernel.popNext_fields _ hpop).2.1).trans
      (Kernel.rotated_fields _ _ _).2.1)

namespace Hooked

variable {s s' : Hooked}

theorem baseAfter_of_ne (ht : t ≠ .user s.machine.kernel.threads) :
    s.baseAfter l t = s.basePriority t := by
  unfold baseAfter
  split
  · exact Function.update_of_ne ht _ _
  · exact Function.update_of_ne ht _ _
  · rfl

/-- The snapshot of a thread stays what it is. -/
theorem createWaiter_step (ht : Trans cfg s.machine a l s'.machine a')
    (hbase : s'.basePriority = s.baseAfter l)
    (hreg : s.machine.kernel.Registered cfg t) : s'.createWaiter t = s.createWaiter t := by
  have hne : t ≠ .user s.machine.kernel.threads := by
    rintro rfl
    exact Nat.lt_irrefl _ hreg
  have hfixed := ht.fixed hne
  simp only [Kernel.fixed, Prod.mk.injEq] at hfixed
  rw [createWaiter, createWaiter, hbase, baseAfter_of_ne hne, hfixed.1, hfixed.2.1, hfixed.2.2,
    ht.affinity hne]

/-- The calls of a loop are about a registered thread and carry its snapshot. -/
theorem enters_waiter (h : Sim cfg s.machine a) (ht : Trans cfg s.machine a l m' a')
    (hact : s.machine.acting l = some u) {call : HookCall} (hmem : call ∈ s.enters cfg u m') :
    s.machine.kernel.Registered cfg call.thread ∧ call.waiter = s.createWaiter call.thread := by
  have hacting : ∀ t, s.machine.acting l = some t → t = u := fun t hu => by
    rw [hact] at hu
    exact (Option.some.inj hu).symm
  cases ht.hookMove h with
  | keep hpc hheld =>
    rw [enters_nil (hpc u hact).1 (hpc u hact).2] at hmem
    cases hmem
  | block hu hpc hpc' hphase hnd hphase' =>
    obtain rfl := hacting _ hu
    rw [enters_block hpc hpc'] at hmem
    obtain ⟨w, -, rfl⟩ := List.mem_map.mp hmem
    exact ⟨h.registered_iff.mpr (by rw [hphase]; simp), rfl⟩
  | tearDown hu hpc hpc' hphase hphase' =>
    obtain rfl := hacting _ hu
    rw [enters, hpc] at hmem
    obtain ⟨hthread, hwaiter⟩ := mem_removes hmem
    rw [hthread]
    exact ⟨h.registered_iff.mpr (by rw [hphase]; simp), hwaiter⟩

end Hooked

/-- Every call carries the snapshot of its thread as it is now. -/
structure Snapshots (cfg : Config) (s : Hooked) : Prop where
  base : ∀ t, s.machine.kernel.Registered cfg t →
    s.basePriority t = s.machine.kernel.priority t
  call : ∀ call, (call ∈ s.made ∨ ∃ t, call ∈ s.due t) →
    s.machine.kernel.Registered cfg call.thread ∧ call.waiter = s.createWaiter call.thread

namespace Snapshots

variable {s s' : Hooked}

theorem initial (cfg : Config) : Snapshots cfg (Hooked.initial cfg) where
  base t _ := rfl
  call call hcall := by
    rcases hcall with hmem | ⟨t, hmem⟩ <;> cases hmem

/-- A step of the machine, with the calls that it adds. -/
theorem machine (h : Snapshots cfg s) (ht : Trans cfg s.machine a l s'.machine a')
    (hbase : s'.basePriority = s.baseAfter l)
    (hcalls : ∀ call, (call ∈ s'.made ∨ ∃ t, call ∈ s'.due t) →
      (call ∈ s.made ∨ ∃ t, call ∈ s.due t) ∨
        s.machine.kernel.Registered cfg call.thread ∧ call.waiter = s.createWaiter call.thread) :
    Snapshots cfg s' := by
  have hthreads : s.machine.kernel.threads ≤ s'.machine.kernel.threads := by
    rcases ht.newborn with hsame | ⟨-, -, -, hmore, -⟩
    · exact Nat.le_of_eq hsame.symm
    · exact hmore ▸ Nat.le_succ _
  have hreg : ∀ {t}, s.machine.kernel.Registered cfg t → s'.machine.kernel.Registered cfg t := by
    intro t ht
    cases t with
    | idle c => exact ht
    | user n => exact Nat.lt_of_lt_of_le ht hthreads
  constructor
  · intro t ht'
    by_cases hold : s.machine.kernel.Registered cfg t
    · have hsame := Hooked.createWaiter_step ht hbase hold
      have hbefore : (s.createWaiter t).basePriority = (s.createWaiter t).effectivePriority :=
        h.base t hold
      rwa [← hsame] at hbefore
    · -- the thread is new
      cases t with
      | idle c => exact absurd ht' hold
      | user n =>
        rcases ht.newborn with hsame | ⟨priority, affinity, hl, hmore, hprio⟩
        · rw [Kernel.Registered, hsame] at ht'
          exact absurd ht' hold
        · obtain rfl : n = s.machine.kernel.threads := by
            have hlt : n < s'.machine.kernel.threads := ht'
            have hge : ¬ n < s.machine.kernel.threads := hold
            omega
          rw [hbase, hprio]
          rcases hl with rfl | ⟨c, rfl⟩ <;> exact Function.update_self ..
  · intro call hmem
    obtain ⟨hold, hwaiter⟩ := (hcalls call hmem).elim (h.call call) id
    exact ⟨hreg hold, hwaiter.trans (Hooked.createWaiter_step ht hbase hold).symm⟩

theorem step {hl : HookedLabel} (h : Snapshots cfg s) (hsim : Sim cfg s.machine a)
    (hvalid : hl.Valid cfg) (hs : s.step cfg hl = .ok s') : Snapshots cfg s' := by
  cases hl with
  | step l =>
    obtain ⟨m', hm, hcases⟩ := Hooked.step_machine hs
    obtain ⟨a', ht⟩ := hsim.trans hvalid hm
    rcases hcases with ⟨-, rfl⟩ | ⟨u, hact, -, rfl⟩
    · exact h.machine ht rfl fun call hcall => .inl hcall
    · refine h.machine ht rfl fun call hcall => ?_
      rcases hcall with hmade | ⟨t, hmem⟩
      · exact .inl (.inl hmade)
      · replace hmem : call ∈ Function.update s.due u (s.enters cfg u m') t := hmem
        by_cases htu : t = u
        · subst htu
          rw [Function.update_self] at hmem
          exact .inr (Hooked.enters_waiter hsim ht hact hmem)
        · rw [Function.update_of_ne htu] at hmem
          exact .inl (.inr ⟨t, hmem⟩)
  | hook c =>
    obtain ⟨u, call, calls, hdue, rfl⟩ := Hooked.step_hook hs
    have hsub : ∀ t next, next ∈ Function.update s.due u calls t → next ∈ s.due t := by
      intro t next hmem
      by_cases htu : t = u
      · subst htu
        rw [Function.update_self] at hmem
        rw [hdue]
        exact List.mem_cons_of_mem call hmem
      · rwa [Function.update_of_ne htu] at hmem
    refine ⟨h.base, fun next hnext => h.call next ?_⟩
    rcases hnext with hmade | ⟨t, hmem⟩
    · rcases List.mem_append.mp hmade with hmade | hlast
      · exact .inl hmade
      · obtain rfl := List.mem_singleton.mp hlast
        exact .inr ⟨u, hdue ▸ List.mem_cons_self⟩
    · exact .inr ⟨t, hsub t next hmem⟩

end Snapshots

/-- **What the hooks are told**: a call carries id, priorities, core and affinity of its thread
as they are now, whenever it has been made or is going to be made, and the effective priority is
the base priority. -/
theorem hooks_snapshot {s : Hooked} (h : (hooked cfg).ReachVia (fun _ l => l.Valid cfg) s)
    {call : HookCall} (hcall : call ∈ s.made ∨ ∃ t, call ∈ s.due t) :
    call.waiter = s.createWaiter call.thread ∧
      call.waiter.effectivePriority = call.waiter.basePriority := by
  have hsnap : Snapshots cfg s := by
    refine h.invariant (fun s hs => ?_) fun s l s' hreach hsnap hvalid hstep => ?_
    · rw [show s = _ from hs]
      exact Snapshots.initial cfg
    · obtain ⟨a, ha⟩ := Hooked.reach_sim hreach
      exact hsnap.step ha hvalid hstep
  obtain ⟨hreg, hwaiter⟩ := hsnap.call call hcall
  refine ⟨hwaiter, ?_⟩
  rw [hwaiter]
  exact (hsnap.base _ hreg).symm

/-- The snapshot of the thread that blocks, in the call that core 1 has made and in the one that
core 0 has still to make. -/
theorem removed_before_blocked_snapshot :
    (∃ call ∈ (removedFirst.state 12).made,
      call.waiter = (removedFirst.state 12).createWaiter call.thread ∧
        call.waiter.effectivePriority = call.waiter.basePriority) ∧
    ∃ call ∈ (removedFirst.state 12).due (.user 0),
      call.waiter = (removedFirst.state 12).createWaiter call.thread ∧
        call.waiter.effectivePriority = call.waiter.basePriority := by
  have hreach := removedFirst.reachVia (C := fun _ l => l.Valid twoCores) (by decide +kernel) 12
    (Nat.le_refl 12)
  have hmade : (⟨.onThreadRemoved, .object 0, ⟨1, 5, 5, 0, 1#32⟩, .user 0⟩ : HookCall) ∈
      (removedFirst.state 12).made := by
    decide +kernel
  have hdue : (⟨.onThreadBlocked, .object 0, ⟨1, 5, 5, 0, 1#32⟩, .user 0⟩ : HookCall) ∈
      (removedFirst.state 12).due (.user 0) := by
    decide +kernel
  exact ⟨⟨_, hmade, hooks_snapshot hreach (.inl hmade)⟩,
    ⟨_, hdue, hooks_snapshot hreach (.inr ⟨_, hdue⟩)⟩⟩

end Cortos
