import Cortos.Hooks.Basic
import Cortos.Properties.StaleWake

/-!
# Every wait is announced and taken back

Nothing orders `on_thread_blocked` and `on_thread_removed` when the thread that blocks and the
thread that signals run on different cores.

- `Rounds`, `Paired`: for one thread and one waitable, every wait has one call of each kind,
  and the calls of a wait come before those of the next.
- `HookInv`: which loop a thread is in follows from where it is in its code, so no call is due
  twice.
- `hooks_paired` is the result for any number of cores. `hooks_alternate`: on one core every
  `on_thread_removed` comes after its `on_thread_blocked`.
-/

namespace Cortos

open Lib

variable {cfg : Config} {m m' : Machine} {a a' : Life} {l : Label} {c : Nat} {t x u : ThreadRef}
  {w : WaitableRef}

/-! ## The history of a thread and a waitable -/

/-- Both hooks once for each wait, wait by wait. Only if `mixed` may the second come first. -/
inductive Rounds (mixed : Prop) : List Hook → Prop
  | nil : Rounds mixed []
  | inOrder {hs : List Hook} (h : Rounds mixed hs) :
    Rounds mixed (hs ++ [.onThreadBlocked] ++ [.onThreadRemoved])
  | swapped {hs : List Hook} (h : Rounds mixed hs) (hmixed : mixed) :
    Rounds mixed (hs ++ [.onThreadRemoved] ++ [.onThreadBlocked])

/-- The calls that have been made, depending on which calls of the last wait are to come. -/
structure Paired (mixed blockedDue removedDue : Prop) (hs : List Hook) : Prop where
  settled : ¬ blockedDue → ¬ removedDue → Rounds mixed hs
  begun : blockedDue → removedDue → Rounds mixed hs
  waiting : ¬ blockedDue → removedDue → ∃ r, Rounds mixed r ∧ hs = r ++ [.onThreadBlocked]
  early : blockedDue → ¬ removedDue → mixed ∧ ∃ r, Rounds mixed r ∧ hs = r ++ [.onThreadRemoved]

section Paired

variable {mixed b r b' r' : Prop} {hs : List Hook}

theorem Paired.congr (h : Paired mixed b r hs) (hb : b' ↔ b) (hr : r' ↔ r) :
    Paired mixed b' r' hs := by
  rwa [propext hb, propext hr]

/-- A thread blocks. -/
theorem Paired.begin (h : Paired mixed b r hs) (hb : ¬ b) (hr : ¬ r) (hb' : b') (hr' : r') :
    Paired mixed b' r' hs where
  settled hnot _ := absurd hb' hnot
  begun _ _ := h.settled hb hr
  waiting hnot _ := absurd hb' hnot
  early _ hnot := absurd hr' hnot

/-- `on_thread_blocked` is called. -/
theorem Paired.blocked (h : Paired mixed b r hs) (hb : b) (hb' : ¬ b') (hr : r' ↔ r) :
    Paired mixed b' r' (hs ++ [.onThreadBlocked]) where
  settled _ hnot := by
    obtain ⟨hmixed, rounds, hrounds, rfl⟩ := h.early hb (mt hr.mpr hnot)
    exact hrounds.swapped hmixed
  begun hdue _ := absurd hdue hb'
  waiting _ hdue := ⟨hs, h.begun hb (hr.mp hdue), rfl⟩
  early hdue _ := absurd hdue hb'

/-- `on_thread_removed` is called. -/
theorem Paired.removed (h : Paired mixed b r hs) (hr : r) (hr' : ¬ r') (hb : b' ↔ b)
    (hmixed : b → mixed) : Paired mixed b' r' (hs ++ [.onThreadRemoved]) where
  settled hnot _ := by
    obtain ⟨rounds, hrounds, rfl⟩ := h.waiting (mt hb.mpr hnot) hr
    exact hrounds.inOrder
  begun _ hdue := absurd hdue hr'
  waiting _ hdue := absurd hdue hr'
  early hdue _ := ⟨hmixed (hb.mp hdue), hs, h.begun (hb.mp hdue) hr, rfl⟩

end Paired

/-- A call of this kind about thread `t` on waitable `w`. -/
def HookCall.Is (call : HookCall) (hook : Hook) (t : ThreadRef) (w : WaitableRef) : Prop :=
  call.hook = hook ∧ call.thread = t ∧ call.waitable = w

namespace Hooked

/-- The calls about thread `t` on waitable `w` that have been made. -/
def history (s : Hooked) (t : ThreadRef) (w : WaitableRef) : List Hook :=
  (s.made.filter fun call => call.thread = t ∧ call.waitable = w).map HookCall.hook

/-- A call of this kind about thread `t` on waitable `w` is to come. -/
def Due (s : Hooked) (hook : Hook) (t : ThreadRef) (w : WaitableRef) : Prop :=
  ∃ u, ∃ call ∈ s.due u, call.Is hook t w

/-- Thread `t` has a node in the queue of waitable `w`. -/
def Linked (cfg : Config) (s : Hooked) (t : ThreadRef) (w : WaitableRef) : Prop :=
  ∃ n ∈ s.machine.kernel.waitQueue cfg w, n.owner = t

end Hooked

/-- A step does not tear a group down under a `wake_thread` that has passed its assertions. -/
def HookedLabel.WakesUndisturbed (s : Hooked) : HookedLabel → Prop
  | .step l => Cortos.WakesUndisturbed s.machine l
  | .hook _ => True

instance (s : Hooked) : DecidablePred (HookedLabel.WakesUndisturbed s)
  | .step l => inferInstanceAs (Decidable (Cortos.WakesUndisturbed s.machine l))
  | .hook _ => .isTrue trivial

/-! ## Calls that are due -/

section Due

variable {s s' : Hooked} {hook : Hook} {call : HookCall} {calls : List HookCall}

/-- What is to come, by who has to call it. -/
theorem Hooked.due_iff (u : ThreadRef) : s.Due hook t w ↔
    (∃ v, v ≠ u ∧ ∃ call ∈ s.due v, call.Is hook t w) ∨ ∃ call ∈ s.due u, call.Is hook t w := by
  constructor
  · rintro ⟨v, hv⟩
    by_cases hvu : v = u
    · exact .inr (hvu ▸ hv)
    · exact .inl ⟨v, hvu, hv⟩
  · rintro (⟨v, -, hv⟩ | hu)
    · exact ⟨v, hv⟩
    · exact ⟨u, hu⟩

theorem Hooked.due_others (hs' : s'.due = Function.update s.due u calls) :
    (∃ v, v ≠ u ∧ ∃ call ∈ s'.due v, call.Is hook t w) ↔
      ∃ v, v ≠ u ∧ ∃ call ∈ s.due v, call.Is hook t w := by
  refine exists_congr fun v => and_congr_right fun hv => ?_
  rw [hs', Function.update_of_ne hv]

/-- A thread enters a loop. -/
theorem Hooked.due_enter (hs' : s'.due = Function.update s.due u calls) (hdue : s.due u = []) :
    s'.Due hook t w ↔ s.Due hook t w ∨ ∃ call ∈ calls, call.Is hook t w := by
  rw [Hooked.due_iff u, Hooked.due_iff (s := s) u, Hooked.due_others hs', hs',
    Function.update_self, hdue]
  simp

/-- A thread makes a call. -/
theorem Hooked.due_call (hs' : s'.due = Function.update s.due u calls)
    (hdue : s.due u = call :: calls) :
    s.Due hook t w ↔ call.Is hook t w ∨ s'.Due hook t w := by
  have hmem : (∃ next ∈ s.due u, next.Is hook t w) ↔
      call.Is hook t w ∨ ∃ next ∈ calls, next.Is hook t w := by
    rw [hdue]
    simp
  rw [Hooked.due_iff u, Hooked.due_iff (s := s') u, Hooked.due_others hs', hs',
    Function.update_self, hmem]
  exact or_left_comm

theorem Hooked.history_call (hs' : s'.made = s.made ++ [call]) (t : ThreadRef) (w : WaitableRef) :
    s'.history t w = s.history t w ++ if call.thread = t ∧ call.waitable = w then [call.hook] else [] := by
  rw [history, history, hs', List.filter_append, List.map_append]
  by_cases his : call.thread = t ∧ call.waitable = w
  · simp [his]
  · rw [if_neg his]
    simp only [List.filter_cons, decide_eq_true_eq, if_neg his, List.filter_nil, List.map_nil]

/-- The calls of a loop. -/
theorem Hooked.mem_loop {ws : List WaitableRef} :
    (∃ call ∈ s.loop hook x ws, call.Is hook t w) ↔ t = x ∧ w ∈ ws := by
  constructor
  · rintro ⟨call, hmem, -, hthread, hwaitable⟩
    obtain ⟨v, hv, rfl⟩ := List.mem_map.mp hmem
    exact ⟨hthread.symm, hwaitable ▸ hv⟩
  · rintro ⟨rfl, hw⟩
    exact ⟨_, List.mem_map.mpr ⟨w, hw, rfl⟩, rfl, rfl, rfl⟩

theorem Hooked.not_mem_loop {ws : List WaitableRef} {other : Hook} (hne : other ≠ hook) :
    ¬ ∃ call ∈ s.loop other x ws, call.Is hook t w := by
  rintro ⟨call, hmem, hhook, -⟩
  obtain ⟨v, hv, rfl⟩ := List.mem_map.mp hmem
  exact hne hhook

theorem Hooked.nodup_loop {ws : List WaitableRef} (hnd : ws.Nodup) :
    ((s.loop hook x ws).map HookCall.waitable).Nodup := by
  rwa [Hooked.loop, List.map_map, show HookCall.waitable ∘ _ = id from rfl, List.map_id]

end Due

/-! ## The invariant -/

/-- The calls that a thread at point `pc` can still have to make. -/
def ThreadPc.Calls (pc : ThreadPc) (t : ThreadRef) (call : HookCall) : Prop :=
  (call.hook = .onThreadBlocked ∧ call.thread = t ∧ ∃ ws p, pc = .commence ws p) ∨
    (call.hook = .onThreadRemoved ∧ ∃ s, pc = .setReady s call.thread)

/-- The invariant. -/
structure HookInv (cfg : Config) (s : Hooked) (a : Life) : Prop where
  sim : Sim cfg s.machine a
  woken : WokenHeld s.machine a
  /-- A thread that tears a group down has read it from its node. -/
  group : ∀ u sig x g, s.machine.fiber u = .teardown sig x g → s.group u = some x
  calls : ∀ t, ∀ call ∈ s.due t, (s.machine.fiber t).Calls t call
  nodup : ∀ t, ((s.due t).map HookCall.waitable).Nodup
  paired : ∀ t w, Paired (1 < cfg.cores) (s.Due .onThreadBlocked t w)
    (w ∈ (a.phase t).held ∨ s.Due .onThreadRemoved t w) (s.history t w)

namespace HookInv

variable {s s' : Hooked}

theorem blocked_due (h : HookInv cfg s a) (hdue : s.Due .onThreadBlocked t w) :
    (∃ call ∈ s.due t, call.Is .onThreadBlocked t w) ∧ ∃ ws p, s.machine.fiber t = .commence ws p := by
  obtain ⟨u, call, hmem, his⟩ := hdue
  rcases h.calls u call hmem with ⟨-, hthread, hpc⟩ | ⟨hhook, -⟩
  · obtain rfl : u = t := hthread.symm.trans his.2.1
    exact ⟨⟨call, hmem, his⟩, hpc⟩
  · rw [his.1] at hhook
    cases hhook

theorem removed_due (h : HookInv cfg s a) {call : HookCall} (hmem : call ∈ s.due u)
    (hhook : call.hook = .onThreadRemoved) :
    a.phase call.thread = .torn u ∧ ∃ sig, s.machine.fiber u = .setReady sig call.thread := by
  rcases h.calls u call hmem with ⟨hblocked, -⟩ | ⟨-, sig, hpc⟩
  · rw [hhook] at hblocked
    cases hblocked
  · refine ⟨?_, sig, hpc⟩
    have hclaim := (h.sim.claims call.thread u .wakeUp).mp (by rw [hpc]; rfl)
    cases hp : a.phase call.thread <;> simp_all [Phase.claim]

/-- On one core the thread that is removed has been through its own loop. -/
theorem mixed (h : HookInv cfg s a) {call : HookCall} (hmem : call ∈ s.due u)
    (hhook : call.hook = .onThreadRemoved)
    (hdue : s.Due .onThreadBlocked call.thread w) : 1 < cfg.cores := by
  obtain ⟨-, sig, hpc⟩ := h.removed_due hmem hhook
  obtain ⟨-, ws, p, hpc'⟩ := h.blocked_due hdue
  have hexec : s.machine.Executing u :=
    (h.sim.thread u).executing.resolve_right (by rw [hpc]; simp [ThreadPc.suspended])
  have hexec' : s.machine.Executing call.thread :=
    (h.sim.thread _).executing.resolve_right (by rw [hpc']; simp [ThreadPc.suspended])
  by_contra hone
  -- both would be the thread that core 0 executes
  rw [← h.sim.executing_unique (Nat.le_of_not_lt hone) hexec hexec', hpc] at hpc'
  cases hpc'

/-- Calls of one kind about one thread are due in one loop. -/
theorem caller_unique (h : HookInv cfg s a) {call next : HookCall} {v : ThreadRef}
    (hmem : call ∈ s.due u) (hnext : next ∈ s.due v) (hhook : next.hook = call.hook)
    (hthread : next.thread = call.thread) : v = u := by
  cases hkind : call.hook with
  | onThreadBlocked =>
    -- a thread calls `on_thread_blocked` about itself
    rcases h.calls u call hmem with ⟨-, hu, -⟩ | ⟨hkind', -⟩
    · rcases h.calls v next hnext with ⟨-, hv, -⟩ | ⟨hkind', -⟩
      · exact hv.symm.trans (hthread.trans hu)
      · rw [hhook, hkind] at hkind'
        cases hkind'
    · rw [hkind] at hkind'
      cases hkind'
  | onThreadRemoved =>
    -- only the thread that has torn a wait down calls `on_thread_removed`
    have htorn := (h.removed_due hmem hkind).1
    have htorn' := (h.removed_due hnext (hhook.trans hkind)).1
    rw [hthread, htorn] at htorn'
    cases htorn'
    rfl

theorem initial (cfg : Config) : HookInv cfg (Hooked.initial cfg) (Life.initial cfg) where
  sim := Sim.initial cfg
  woken := .initial cfg
  group u sig x g hpc := by cases u <;> cases hpc
  calls t call hmem := by cases hmem
  nodup t := List.nodup_nil
  paired t w := by
    have hnone : ∀ hook, ¬ (Hooked.initial cfg).Due hook t w := by
      rintro hook ⟨u, call, hmem, -⟩
      cases hmem
    have hheld : ((Life.initial cfg).phase t).held = [] := by
      cases t with
      | user n => rfl
      | idle c =>
        show (if _ then Phase.ready else Phase.unborn).held = []
        split <;> rfl
    have hnot : ¬ (w ∈ ((Life.initial cfg).phase t).held ∨
        (Hooked.initial cfg).Due .onThreadRemoved t w) := by
      rw [hheld]
      rintro (hmem | hdue)
      · cases hmem
      · exact hnone _ hdue
    exact ⟨fun _ _ => .nil, fun hdue => absurd hdue (hnone _), fun _ hdue => absurd hdue hnot,
      fun hdue => absurd hdue (hnone _)⟩

/-- **A hook is called.** -/
theorem call (h : HookInv cfg s a) {call : HookCall} {calls : List HookCall}
    (hdue : s.due u = call :: calls) :
    HookInv cfg { s with due := Function.update s.due u calls, made := s.made ++ [call] } a := by
  have hmem : call ∈ s.due u := by rw [hdue]; exact List.mem_cons_self
  have hsub : ∀ t, (Function.update s.due u calls t).Sublist (s.due t) := by
    intro t
    by_cases ht : t = u
    · subst ht
      rw [Function.update_self, hdue]
      exact List.sublist_cons_self call calls
    · rw [Function.update_of_ne ht]
  generalize hs' : { s with due := Function.update s.due u calls, made := s.made ++ [call] } = s'
  have hdue' : s'.due = Function.update s.due u calls := by rw [← hs']
  have hmade : s'.made = s.made ++ [call] := by rw [← hs']
  -- the call is not due a second time
  have hgone : ¬ s'.Due call.hook call.thread call.waitable := by
    rintro ⟨v, next, hnext, hhook, hthread, hwaitable⟩
    rw [hdue'] at hnext
    obtain rfl := h.caller_unique hmem ((hsub v).subset hnext) hhook hthread
    rw [Function.update_self] at hnext
    have hnodup := h.nodup v
    rw [hdue, List.map_cons, List.nodup_cons] at hnodup
    exact hnodup.1 (hwaitable ▸ List.mem_map_of_mem hnext)
  refine ⟨hs' ▸ h.sim, hs' ▸ h.woken, hs' ▸ h.group, fun t next hnext => ?_, fun t => ?_,
    fun t w => ?_⟩
  · rw [hdue'] at hnext
    rw [← hs']
    exact h.calls t next ((hsub t).subset hnext)
  · rw [hdue']
    exact ((hsub t).map _).nodup (h.nodup t)
  · have hiff : ∀ {hook}, ¬ call.Is hook t w → (s'.Due hook t w ↔ s.Due hook t w) := fun hnot => by
      rw [Hooked.due_call hdue' hdue, or_iff_right hnot]
    rw [Hooked.history_call hmade]
    by_cases his : call.thread = t ∧ call.waitable = w
    · obtain ⟨rfl, rfl⟩ := his
      rw [if_pos ⟨rfl, rfl⟩]
      cases hkind : call.hook with
      | onThreadBlocked =>
        rw [hkind] at hgone
        have hwas : s.Due .onThreadBlocked call.thread call.waitable :=
          ⟨u, call, hmem, hkind, rfl, rfl⟩
        refine (h.paired _ _).blocked hwas hgone (or_congr_right (hiff ?_))
        rintro ⟨hkind', -⟩
        rw [hkind] at hkind'
        cases hkind'
      | onThreadRemoved =>
        rw [hkind] at hgone
        have hwas : s.Due .onThreadRemoved call.thread call.waitable :=
          ⟨u, call, hmem, hkind, rfl, rfl⟩
        refine (h.paired _ _).removed (.inr hwas) ?_ (hiff ?_) (h.mixed hmem hkind)
        · rintro (hheld | hdue)
          · rw [(h.removed_due hmem hkind).1] at hheld
            cases hheld
          · exact hgone hdue
        · rintro ⟨hkind', -⟩
          rw [hkind] at hkind'
          cases hkind'
    · rw [if_neg his, List.append_nil]
      have hnot : ∀ hook, ¬ call.Is hook t w := fun hook hcall => his hcall.2
      exact (h.paired t w).congr (hiff (hnot _)) (or_congr_right (hiff (hnot _)))

/-- A winner reads the group of the wait it has won. -/
theorem group_step (h : HookInv cfg s a) (ht : Trans cfg s.machine a l s'.machine a')
    (hgroup : ∀ u, s'.group u = if s.machine.acting l = some u then s.rereads u else s.group u)
    {sig : SignalCall} {g : ThreadRef} (hpc : s'.machine.fiber u = .teardown sig x g) :
    s'.group u = some x := by
  obtain ⟨ws, hwon⟩ : ∃ ws, a'.phase x = .won u ws := by
    have hclaim := ((ht.sim h.sim).claims x u .tearDown).mp (by rw [hpc]; rfl)
    cases hp : a'.phase x <;> simp_all [Phase.claim]
  cases ht.waitMove h.sim x with
  | keep _ _ hphase =>
    rcases hphase with hsame | ⟨-, hawake⟩
    · have hclaim : (s.machine.fiber u).claim = some (x, .tearDown) :=
        (h.sim.claims x u _).mpr (by rw [← hsame, hwon]; rfl)
      obtain ⟨sig', g', hpc'⟩ : ∃ sig' g', s.machine.fiber u = .teardown sig' x g' := by
        cases hp : s.machine.fiber u <;> simp_all [ThreadPc.claim]
      rw [hgroup, Hooked.rereads, hpc', h.group u sig' x g' hpc', ite_self]
    · rw [hwon] at hawake
      cases hawake
  | block _ _ _ _ _ _ _ hphase' | tearDown _ _ _ hphase' =>
    rw [hwon] at hphase'
    cases hphase'
  | wake _ _ _ hawake =>
    rw [hwon] at hawake
    cases hawake
  | @win v sig' n wait i ws' _ _ hpc' howner _ hphase' =>
    rw [hwon] at hphase'
    cases hphase'
    have hact : s.machine.acting l = some u := by
      rcases ht.fiber u with hsame | ⟨c, act, rfl, hcore, hcur⟩
      · rw [hsame, hpc'] at hpc
        cases hpc
      · exact Machine.acting_core hcore hcur
    have hread := (h.woken.rereads h.sim (u := u) (n := n) (by rw [hpc']; rfl)).2.1
    rw [hgroup, if_pos hact, Hooked.rereads, hpc']
    exact hread.trans (congrArg some howner)

/-- A step of the machine that is not one into a loop. -/
theorem keep (h : HookInv cfg s a) (ht : Trans cfg s.machine a l s'.machine a')
    (hwakes : WakesUndisturbed s.machine l)
    (hgroup : ∀ u, s'.group u = if s.machine.acting l = some u then s.rereads u else s.group u)
    (hdue : s'.due = s.due) (hmade : s'.made = s.made)
    (hidle : ∀ t, s.machine.acting l = some t → s.due t = [])
    (hheld : ∀ t, (a'.phase t).held = (a.phase t).held) : HookInv cfg s' a' where
  sim := ht.sim h.sim
  woken := ht.wokenHeld h.sim h.woken hwakes
  group u sig x g hpc := h.group_step ht hgroup hpc
  calls t call hmem := by
    rw [hdue] at hmem
    rcases ht.fiber t with hsame | ⟨c, act, rfl, hcore, hcur⟩
    · rw [hsame]
      exact h.calls t call hmem
    · rw [hidle t (Machine.acting_core hcore hcur)] at hmem
      cases hmem
  nodup t := hdue ▸ h.nodup t
  paired t w := by
    have hsame : ∀ hook, s'.Due hook t w ↔ s.Due hook t w := fun hook => by
      rw [Hooked.Due, hdue]
      rfl
    rw [Hooked.history, hmade]
    refine (h.paired t w).congr (hsame _) (or_congr ?_ (hsame _))
    rw [hheld]

/-- A step of the machine into a loop. -/
theorem enter (h : HookInv cfg s a) (ht : Trans cfg s.machine a l s'.machine a')
    (hwakes : WakesUndisturbed s.machine l)
    (hgroup : ∀ u, s'.group u = if s.machine.acting l = some u then s.rereads u else s.group u)
    {hook : Hook} {ws : List WaitableRef}
    (hact : s.machine.acting l = some u) (hidle : s.due u = [])
    (hdue : s'.due = Function.update s.due u (s.loop hook x ws))
    (hmade : s'.made = s.made)
    (hcalls : ∀ call ∈ s.loop hook x ws, (s'.machine.fiber u).Calls u call) (hnd : ws.Nodup)
    (hpaired : ∀ t w, Paired (1 < cfg.cores)
      (s.Due .onThreadBlocked t w ∨ ∃ call ∈ s.loop hook x ws, call.Is .onThreadBlocked t w)
      (w ∈ (a'.phase t).held ∨
        s.Due .onThreadRemoved t w ∨ ∃ call ∈ s.loop hook x ws, call.Is .onThreadRemoved t w)
      (s.history t w)) : HookInv cfg s' a' := by
  refine ⟨ht.sim h.sim, ht.wokenHeld h.sim h.woken hwakes,
    fun u sig x g hpc => h.group_step ht hgroup hpc, fun t call hmem => ?_, fun t => ?_,
    fun t w => ?_⟩
  · rw [hdue] at hmem
    by_cases htu : t = u
    · subst htu
      rw [Function.update_self] at hmem
      exact hcalls call hmem
    · rw [Function.update_of_ne htu] at hmem
      rcases ht.fiber t with hsame | ⟨c, act, rfl, hcore, hcur⟩
      · rw [hsame]
        exact h.calls t call hmem
      · rw [Machine.acting_core hcore hcur] at hact
        exact absurd (Option.some.inj hact) htu
  · rw [hdue]
    by_cases htu : t = u
    · subst htu
      rw [Function.update_self]
      exact Hooked.nodup_loop hnd
    · rw [Function.update_of_ne htu]
      exact h.nodup t
  · rw [Hooked.history, hmade]
    exact (hpaired t w).congr (Hooked.due_enter hdue hidle)
      (or_congr_right (Hooked.due_enter hdue hidle))

/-- A thread has linked its nodes and calls `on_thread_blocked` next. -/
theorem paired_block (h : HookInv cfg s a) (hidle : s.due t = []) (hphase : a.phase t = .running)
    {ws : List WaitableRef} (x : ThreadRef) (w : WaitableRef) : Paired (1 < cfg.cores)
      (s.Due .onThreadBlocked x w ∨ x = t ∧ w ∈ ws)
      (w ∈ (Function.update a.phase t (.waiting ws) x).held ∨ s.Due .onThreadRemoved x w)
      (s.history x w) := by
  by_cases hx : x = t
  · subst hx
    have hb : ¬ s.Due .onThreadBlocked x w := fun hdue => by
      obtain ⟨⟨call, hmem, -⟩, -⟩ := h.blocked_due hdue
      rw [hidle] at hmem
      cases hmem
    have hr : ¬ (w ∈ (a.phase x).held ∨ s.Due .onThreadRemoved x w) := by
      rw [hphase]
      rintro (hheld | ⟨v, call, hmem, hhook, hthread, -⟩)
      · cases hheld
      · have htorn := (h.removed_due hmem hhook).1
        rw [hthread, hphase] at htorn
        cases htorn
    rw [Function.update_self]
    by_cases hw : w ∈ ws
    · exact (h.paired x w).begin hb hr (.inr ⟨rfl, hw⟩) (.inl hw)
    · refine (h.paired x w).congr (or_iff_left fun hnew => hw hnew.2) ?_
      rw [hphase]
      exact or_congr_left ⟨fun hmem => absurd hmem hw, fun hmem => by cases hmem⟩
  · rw [Function.update_of_ne hx]
    exact (h.paired x w).congr (or_iff_left fun hnew => hx hnew.1) Iff.rfl

/-- A winner has unlinked the nodes of `x` and calls `on_thread_removed` next. -/
theorem paired_tearDown (h : HookInv cfg s a) {ws : List WaitableRef}
    (hphase : a.phase x = .won t ws) (y : ThreadRef) (w : WaitableRef) : Paired (1 < cfg.cores)
      (s.Due .onThreadBlocked y w)
      (w ∈ (Function.update a.phase x (.torn t) y).held ∨
        s.Due .onThreadRemoved y w ∨ y = x ∧ w ∈ ws) (s.history y w) := by
  by_cases hy : y = x
  · -- what was linked is now to be removed
    subst hy
    rw [Function.update_self]
    refine (h.paired y w).congr Iff.rfl ?_
    rw [hphase]
    show w ∈ [] ∨ s.Due .onThreadRemoved y w ∨ y = y ∧ w ∈ ws ↔ w ∈ ws ∨ _
    simp [or_comm]
  · rw [Function.update_of_ne hy]
    exact (h.paired y w).congr Iff.rfl (or_congr_right (or_iff_left fun hnew => hy hnew.1))

/-- **Step lemma.** -/
theorem machine (h : HookInv cfg s a) (hvalid : l.Valid cfg)
    (hwakes : WakesUndisturbed s.machine l) (hs : s.step cfg (.step l) = .ok s') :
    ∃ a', HookInv cfg s' a' := by
  obtain ⟨m', hm, hcases⟩ := Hooked.step_machine hs
  obtain ⟨a', ht⟩ := h.sim.trans hvalid hm
  refine ⟨a', ?_⟩
  have hmove := ht.hookMove h.sim
  rcases hcases with ⟨hnone, rfl⟩ | ⟨u, hact, hidle, rfl⟩
  · cases hmove with
    | keep hpc hheld =>
      exact h.keep ht hwakes (fun u => by rw [hnone]; rfl) rfl rfl
        (fun t hu => by rw [hnone] at hu; cases hu) hheld
    | block hact | tearDown hact =>
      rw [hnone] at hact
      cases hact
  · have hacting : ∀ t, s.machine.acting l = some t → t = u := fun t hu => by
      rw [hact] at hu
      exact (Option.some.inj hu).symm
    have hgroup : ∀ v, Function.update s.group u (s.rereads u) v =
        if s.machine.acting l = some v then s.rereads v else s.group v := by
      intro v
      by_cases hv : v = u
      · rw [hv, Function.update_self, if_pos hact]
      · rw [Function.update_of_ne hv, if_neg fun hacting' => hv (hacting v hacting')]
    cases hmove with
    | keep hpc hheld =>
      refine h.keep ht hwakes hgroup ?_ rfl (fun t hu => hacting t hu ▸ hidle) hheld
      show Function.update s.due u _ = s.due
      rw [Hooked.enters_nil (hpc u hact).1 (hpc u hact).2, ← hidle, Function.update_eq_self]
    | @block t ws p hu hpc hpc' hphase hnd hphase' =>
      obtain rfl := hacting t hu
      have henters : s.enters cfg t m' = s.loop .onThreadBlocked t ws :=
        Hooked.enters_block hpc hpc'
      rw [henters]
      refine h.enter ht hwakes hgroup hact hidle rfl rfl (fun call hmem => ?_) hnd fun x w => ?_
      · obtain ⟨w, -, rfl⟩ := List.mem_map.mp hmem
        exact .inl ⟨rfl, rfl, ws, p, hpc'⟩
      · rw [Hooked.mem_loop, or_iff_left (Hooked.not_mem_loop (by simp)), hphase']
        exact h.paired_block hidle hphase x w
    | @tearDown t x sig ws hu hpc hpc' hphase hphase' =>
      obtain rfl := hacting t hu
      have henters : s.enters cfg t m' = s.loop .onThreadRemoved x ws :=
        Hooked.enters_tearDown h.sim hpc hphase (h.group t sig x x hpc)
      have hnd : ws.Nodup := by
        have hheld := h.sim.waiting.nodup x
        rwa [hphase] at hheld
      rw [henters]
      refine h.enter ht hwakes hgroup hact hidle rfl rfl (fun call hmem => ?_) hnd fun y w => ?_
      · obtain ⟨w, -, rfl⟩ := List.mem_map.mp hmem
        exact .inr ⟨rfl, sig, hpc'⟩
      · rw [Hooked.mem_loop, or_iff_left (Hooked.not_mem_loop (by simp)), hphase']
        exact h.paired_tearDown hphase y w

theorem reach (h : (hooked cfg).ReachVia (fun s l => l.Valid cfg ∧ l.WakesUndisturbed s) s) :
    ∃ a, HookInv cfg s a := by
  refine h.invariant (I := fun s => ∃ a, HookInv cfg s a) (fun s hs => ?_)
    fun s l s' _ hinv hvalid hstep => ?_
  · rw [show s = _ from hs]
    exact ⟨_, HookInv.initial cfg⟩
  · obtain ⟨a, hinv⟩ := hinv
    cases l with
    | step l => exact hinv.machine hvalid.1 hvalid.2 hstep
    | hook c =>
      have hcall : s.step cfg (.hook c) = .ok s' := hstep
      obtain ⟨t, call, calls, hdue, rfl⟩ := Hooked.step_hook hcall
      exact ⟨a, hinv.call hdue⟩

/-- On one core that is no condition. -/
theorem reach_oneCore (h : (hooked cfg).ReachVia (fun _ l => l.Valid cfg) s)
    (hone : cfg.cores ≤ 1) : ∃ a, HookInv cfg s a := by
  refine HookInv.reach (h.strengthen fun s l hs hvalid => ⟨hvalid, ?_⟩)
  obtain ⟨a, ha⟩ := Hooked.reach_sim hs
  cases l with
  | step l => exact ha.wakesUndisturbed hone l
  | hook c => trivial

theorem linked_iff (h : HookInv cfg s a) : s.Linked cfg t w ↔ w ∈ (a.phase t).held := by
  rw [Hooked.Linked, h.sim.waitQueue_eq, List.mem_iff_getElem?]
  constructor
  · rintro ⟨n, hn, rfl⟩
    exact ⟨n.slot, (h.sim.waiting.mem w n).mp hn⟩
  · rintro ⟨i, hi⟩
    exact ⟨⟨t, i⟩, (h.sim.waiting.mem w ⟨t, i⟩).mpr hi, rfl⟩

end HookInv

/-! ## The results -/

section Results

variable {s : Hooked}

/-- **Every wait is announced once and taken back once**, on any number of cores: for each
thread and waitable, each wait has one `on_thread_blocked` and one `on_thread_removed`, before
the calls of the next wait. With more than one core they can come in either order. No group may
be torn down under a `wake_thread` that has passed its assertions: it would then win a wait
without a group to tear down, and `on_thread_removed` would not be called. -/
theorem hooks_paired
    (h : (hooked cfg).ReachVia (fun s l => l.Valid cfg ∧ l.WakesUndisturbed s) s) (t : ThreadRef)
    (w : WaitableRef) : Paired (1 < cfg.cores) (s.Due .onThreadBlocked t w)
      (s.Linked cfg t w ∨ s.Due .onThreadRemoved t w) (s.history t w) := by
  obtain ⟨a, hinv⟩ := HookInv.reach h
  rw [hinv.linked_iff]
  exact hinv.paired t w

/-- The thread of core 0 blocks and the thread of core 1 signals it, up to the hooks. -/
def signalledAtOnce : List Label :=
  [.construct 5 1#32, .construct 5 2#32, .start] ++ steps 0 1 ++ steps 1 1 ++
    [.core 0 (.waitForAny [0]), .core 1 (.signalOne 0 false)] ++ steps 1 4

/-- Core 1 calls its hook first. -/
def removedFirst : (hooked twoCores).Run 12 :=
  .ofLabels (Hooked.initial twoCores) (signalledAtOnce.map .step ++ [.hook 1]) (.hook 0) rfl
    (by decide +kernel)

theorem removed_before_blocked :
    (removedFirst.state 12).history (.user 0) (.object 0) = [.onThreadRemoved] ∧
      Paired (1 < twoCores.cores) ((removedFirst.state 12).Due .onThreadBlocked (.user 0) (.object 0))
        ((removedFirst.state 12).Linked twoCores (.user 0) (.object 0) ∨
          (removedFirst.state 12).Due .onThreadRemoved (.user 0) (.object 0))
        ((removedFirst.state 12).history (.user 0) (.object 0)) :=
  ⟨by decide +kernel,
    hooks_paired (removedFirst.reachVia
      (C := fun s l => l.Valid twoCores ∧ l.WakesUndisturbed s) (by decide +kernel) 12
      (Nat.le_refl 12)) _ _⟩

-- Thread 2 has passed the assertions of `wake_thread` on the second node of thread 0 when
-- thread 1 tears the group down. Thread 0 waits again, on object 2, with its first node: thread 2
-- wins that wait through the node that is free, and `on_thread_removed` is not called.
example : (hooked twoCores).runsTo (fun _ l => l.Valid twoCores)
    (fun s => s.history (.user 0) (.object 2) = [.onThreadBlocked] ∧
      s.machine.kernel.waitQueue twoCores (.object 2) = [] ∧
      s.due (.user 0) = [] ∧ s.due (.user 1) = [] ∧ s.due (.user 2) = []) (Hooked.initial twoCores)
    (([.construct 5 1#32, .construct 5 1#32, .construct 5 2#32, .start] ++ steps 0 1 ++ steps 1 1 ++
        [.core 0 (.waitForAny [0, 1])] : List Label).map .step ++ [.hook 0, .hook 0] ++
      (steps 0 5 ++ [.core 1 (.signalOne 1 true)] ++ steps 1 2 ++
        [.core 0 (.signalOne 0 false)] ++ steps 0 4 : List Label).map .step ++ [.hook 0, .hook 0] ++
      (steps 0 1 ++ [.core 0 .yield] ++ steps 0 5 ++
        [.core 0 (.waitForAny [2])] : List Label).map .step ++ [.hook 0] ++
      (steps 1 2).map .step) = true := by
  decide +kernel

theorem Rounds.eq_replicate {mixed : Prop} {hs : List Hook} (h : Rounds mixed hs)
    (hmixed : ¬ mixed) :
    ∃ n, hs = (List.replicate n [Hook.onThreadBlocked, .onThreadRemoved]).flatten := by
  induction h with
  | nil => exact ⟨0, rfl⟩
  | inOrder h ih =>
    obtain ⟨n, rfl⟩ := ih
    refine ⟨n + 1, ?_⟩
    rw [List.replicate_succ', List.flatten_append, List.append_assoc]
    rfl
  | swapped h hm => exact absurd hm hmixed

/-- **On one core the hooks alternate**: for each thread and waitable, every
`on_thread_removed` comes after the `on_thread_blocked` of its wait. -/
theorem hooks_alternate (h : (hooked cfg).ReachVia (fun _ l => l.Valid cfg) s)
    (hone : cfg.cores = 1) (t : ThreadRef) (w : WaitableRef) :
    ∃ n, let rounds := (List.replicate n [Hook.onThreadBlocked, .onThreadRemoved]).flatten
      s.history t w = rounds ∧ ¬ s.Due .onThreadRemoved t w ∨
        s.history t w = rounds ++ [.onThreadBlocked] ∧ ¬ s.Due .onThreadBlocked t w := by
  have hmixed : ¬ 1 < cfg.cores := by omega
  obtain ⟨a, hinv⟩ := HookInv.reach_oneCore h (Nat.le_of_eq hone)
  have hpaired := hinv.paired t w
  by_cases hb : s.Due .onThreadBlocked t w
  · -- the removal cannot be due at the same time
    have hr : ¬ s.Due .onThreadRemoved t w := by
      rintro ⟨u, call, hmem, hhook, rfl, -⟩
      exact hmixed (hinv.mixed hmem hhook hb)
    by_cases hheld : w ∈ (a.phase t).held
    · obtain ⟨n, hn⟩ := (hpaired.begun hb (.inl hheld)).eq_replicate hmixed
      exact ⟨n, .inl ⟨hn, hr⟩⟩
    · exact absurd (hpaired.early hb (not_or.mpr ⟨hheld, hr⟩)).1 hmixed
  · by_cases hr : w ∈ (a.phase t).held ∨ s.Due .onThreadRemoved t w
    · obtain ⟨r, hrounds, hhist⟩ := hpaired.waiting hb hr
      obtain ⟨n, rfl⟩ := hrounds.eq_replicate hmixed
      exact ⟨n, .inr ⟨hhist, hb⟩⟩
    · obtain ⟨n, hn⟩ := (hpaired.settled hb hr).eq_replicate hmixed
      exact ⟨n, .inl ⟨hn, (not_or.mp hr).2⟩⟩

/-- A thread waits and another one signals it. -/
def waitAndSignal : (hooked oneCore).Run 17 :=
  .ofLabels (Hooked.initial oneCore)
    ([HookedLabel.step (.construct 5 1#32), .step (.construct 5 1#32), .step .start] ++
      (steps 0 1).map .step ++ [.step (.core 0 (.waitForAny [0])), .hook 0] ++
      (steps 0 5).map .step ++ [.step (.core 0 (.signalOne 0 false))] ++ (steps 0 4).map .step ++
      [.hook 0])
    (.hook 0) rfl (by decide +kernel)

theorem removed_after_blocked :
    (waitAndSignal.state 17).history (.user 0) (.object 0) = [.onThreadBlocked, .onThreadRemoved] ∧
      ∃ n, let rounds := (List.replicate n [Hook.onThreadBlocked, .onThreadRemoved]).flatten
        (waitAndSignal.state 17).history (.user 0) (.object 0) = rounds ∧
            ¬ (waitAndSignal.state 17).Due .onThreadRemoved (.user 0) (.object 0) ∨
          (waitAndSignal.state 17).history (.user 0) (.object 0) = rounds ++ [.onThreadBlocked] ∧
            ¬ (waitAndSignal.state 17).Due .onThreadBlocked (.user 0) (.object 0) :=
  ⟨by decide +kernel,
    hooks_alternate (waitAndSignal.reachVia (C := fun _ l => l.Valid oneCore) (by decide +kernel) 17
      (Nat.le_refl 17)) rfl _ _⟩

end Results

end Cortos
