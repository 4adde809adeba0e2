import Cortos.Machine.Observation

/-!
# Thread handles

The `Thread` objects of the application (`thread.hpp`, `kernel.cpp:273–303`): each
holds a pointer to a thread control block or null. All the handles see of the kernel
is that threads are constructed and that some of them become Terminated, in any
order; `Agrees.step` says that this is what the kernel does.

- `Handles.Owned`: every live thread is held by exactly one handle.
- `Handles.Owned.step`: every operation keeps that, except a move assignment onto a
  handle that holds a live thread.
- `owned_iff`: so a run keeps every live thread owned exactly if it has none of
  these.
-/

namespace Cortos

open Lib

/-! ## The code -/

/-- The `Thread` objects and what they can see of the kernel. -/
structure Handles where
  /-- How many threads have been constructed. -/
  threads : Nat
  /-- `tcb->state == Terminated`. -/
  terminated : Nat → Bool
  /-- The member `tcb` of each `Thread` object; `none` if there is no such object. -/
  tcb : Nat → Option (Option Nat)

/-- An operation on `Thread` objects, or the end of a thread. -/
inductive HandleOp where
  /-- `Thread()`. -/
  | default (h : Nat)
  /-- `Thread(entry, stack, priority, affinity)`. -/
  | construct (h : Nat)
  /-- `Thread(Thread&& other)`. -/
  | moveConstruct (h other : Nat)
  /-- `operator=(Thread&& other)`. -/
  | moveAssign (h other : Nat)
  /-- `~Thread()`. -/
  | destroy (h : Nat)
  /-- The launcher of thread `n` marks it Terminated. -/
  | terminate (n : Nat)
  deriving DecidableEq

/-- Why an operation does not complete: there is no such object (or already one),
or the assertion of the destructor fails. -/
inductive HandleFault where
  | disabled
  | notTerminated
  deriving DecidableEq

namespace Handles

/-- `tcb = other.tcb; other.tcb = nullptr`, where `other.tcb` is `p`. -/
def move (s : Handles) (h other : Nat) (p : Option Nat) : Handles :=
  { s with tcb := Function.update (Function.update s.tcb h (some p)) other (some none) }

/-- One operation. -/
def step (s : Handles) : HandleOp → Except HandleFault Handles
  | .default h =>
    if s.tcb h = none then .ok { s with tcb := Function.update s.tcb h (some none) }
    else .error .disabled
  | .construct h =>
    if s.tcb h = none then
      .ok
        { threads := s.threads + 1
          terminated := Function.update s.terminated s.threads false
          tcb := Function.update s.tcb h (some (some s.threads)) }
    else .error .disabled
  | .moveConstruct h other =>
    match s.tcb h, s.tcb other with
    | none, some p => .ok (s.move h other p)
    | _, _ => .error .disabled
  | .moveAssign h other =>
    match s.tcb h, s.tcb other with
    | some _, some p => .ok (s.move h other p)
    | _, _ => .error .disabled
  | .destroy h =>
    match s.tcb h with
    | none => .error .disabled
    | some none => .ok { s with tcb := Function.update s.tcb h none }
    | some (some n) =>
      if s.terminated n then .ok { s with tcb := Function.update s.tcb h none }
      else .error .notTerminated
  | .terminate n =>
    if n < s.threads ∧ s.terminated n = false then
      .ok { s with terminated := Function.update s.terminated n true }
    else .error .disabled

/-- No thread and no `Thread` object. -/
def initial : Handles where
  threads := 0
  terminated _ := false
  tcb _ := none

end Handles

/-- The handles as a transition system. -/
def handleSystem : Lts Handles HandleOp HandleFault where
  init s := s = Handles.initial
  step := Handles.step

namespace Handles

variable {s s' : Handles} {op : HandleOp} {h other n : Nat}

/-- Every live thread is held by exactly one handle. -/
def Owned (s : Handles) : Prop :=
  ∀ n < s.threads, s.terminated n = false → ∃! h, s.tcb h = some (some n)

/-- The handles hold constructed threads. -/
def Known (s : Handles) : Prop :=
  ∀ h n, s.tcb h = some (some n) → n < s.threads

/-- A move assignment finds no live thread in its target. -/
def Keeps (s : Handles) : HandleOp → Prop
  | .moveAssign h _ => ∀ n, s.tcb h = some (some n) → s.terminated n = true
  | _ => True

/-! ## What each operation does -/

/-- The handle of a thread after a move, whose target did not hold the thread. -/
theorem move_tcb {p : Option Nat} {g : Nat} (hg : (s.move h other p).tcb g = some (some n)) :
    g = h ∧ p = some n ∨ g ≠ h ∧ g ≠ other ∧ s.tcb g = some (some n) := by
  simp only [move, Function.update_apply] at hg
  split_ifs at hg with ho hh
  · cases hg
  · exact .inl ⟨hh, Option.some.inj hg⟩
  · exact .inr ⟨hh, ho, hg⟩

theorem Known.step (hk : s.Known) (hs : s.step op = .ok s') : s'.Known := by
  intro g n hg
  cases op with
  | default h =>
    simp only [Handles.step] at hs
    split_ifs at hs
    cases hs
    simp only [Function.update_apply] at hg
    split_ifs at hg
    · cases hg
    · exact hk g n hg
  | construct h =>
    simp only [Handles.step] at hs
    split_ifs at hs
    cases hs
    simp only [Function.update_apply] at hg
    split_ifs at hg
    · cases hg
      exact Nat.lt_succ_self _
    · exact Nat.lt_succ_of_lt (hk g n hg)
  | moveConstruct h other | moveAssign h other =>
    simp only [Handles.step] at hs
    split at hs
    · next p hh ho =>
      cases hs
      rcases move_tcb hg with ⟨-, rfl⟩ | ⟨-, -, hg⟩
      · exact hk other n ho
      · exact hk g n hg
    · cases hs
  | destroy h =>
    have hrest : ∀ {q : Handles}, q = { s with tcb := Function.update s.tcb h none } →
        q.tcb g = some (some n) → n < q.threads := by
      rintro q rfl hq
      simp only [Function.update_apply] at hq
      split_ifs at hq
      exact hk g n hq
    simp only [Handles.step] at hs
    split at hs
    · cases hs
    · cases hs
      exact hrest rfl hg
    · split_ifs at hs
      cases hs
      exact hrest rfl hg
  | terminate n' =>
    simp only [Handles.step] at hs
    split_ifs at hs
    cases hs
    exact hk g n hg

/-- A move hands the thread of its source over and leaves the others where they are,
unless the target held it. -/
theorem existsUnique_move {p : Option Nat} (ho : s.tcb other = some p)
    (hh : s.tcb h ≠ some (some n)) (hu : ∃! g, s.tcb g = some (some n)) :
    ∃! g, (s.move h other p).tcb g = some (some n) := by
  obtain ⟨g, hg, huniq⟩ := hu
  have hhg : g ≠ h := by
    rintro rfl
    exact hh hg
  by_cases hp : p = some n
  · -- the source held the thread, so the target holds it now
    subst hp
    have hog : other = g := huniq other ho
    subst hog
    refine ⟨h, ?_, fun g' hg' => ?_⟩
    · show Function.update (Function.update s.tcb h _) other _ h = _
      rw [Function.update_of_ne hhg.symm, Function.update_self]
    · rcases move_tcb hg' with ⟨hg', -⟩ | ⟨-, hne, hg'⟩
      · exact hg'
      · exact absurd (huniq g' hg') hne
  · have hog : g ≠ other := by
      rintro rfl
      rw [ho] at hg
      exact hp (Option.some.inj hg)
    refine ⟨g, ?_, fun g' hg' => ?_⟩
    · show Function.update (Function.update s.tcb h _) other _ g = _
      rw [Function.update_of_ne hog, Function.update_of_ne hhg]
      exact hg
    · rcases move_tcb hg' with ⟨-, hp'⟩ | ⟨-, -, hg'⟩
      · exact absurd hp' hp
      · exact huniq g' hg'

/-- Writing a handle that neither held the thread nor holds it now. -/
theorem existsUnique_update {v : Option (Option Nat)} (hold : s.tcb h ≠ some (some n))
    (hnew : v ≠ some (some n)) (hu : ∃! g, s.tcb g = some (some n)) :
    ∃! g, Function.update s.tcb h v g = some (some n) := by
  have hsame : ∀ g, Function.update s.tcb h v g = some (some n) ↔ s.tcb g = some (some n) := by
    intro g
    by_cases hg : g = h
    · subst hg
      simp [hold, hnew]
    · rw [Function.update_of_ne hg]
  simpa only [hsame] using hu

/-- **Every operation keeps live threads owned**, except a move assignment onto a
handle that holds one. -/
theorem Owned.step (ho : s.Owned) (hk : s.Known) (hkeeps : s.Keeps op) (hs : s.step op = .ok s') :
    s'.Owned := by
  intro n hn hlive
  cases op with
  | default h =>
    simp only [Handles.step] at hs
    split_ifs at hs with hnone
    cases hs
    exact existsUnique_update (by simp [hnone]) (by simp) (ho n hn hlive)
  | construct h =>
    simp only [Handles.step] at hs
    split_ifs at hs with hnone
    cases hs
    by_cases hnew : n = s.threads
    · -- no other handle can hold the thread that is being constructed
      subst hnew
      refine ⟨h, Function.update_self .., fun g hg => ?_⟩
      simp only [Function.update_apply] at hg
      split_ifs at hg with hgh
      · exact hgh
      · exact absurd (hk g _ hg) (Nat.lt_irrefl _)
    · have hlt : n < s.threads := by
        have : n < s.threads + 1 := hn
        omega
      have hlive' : s.terminated n = false := by
        simpa only [Function.update_of_ne hnew] using hlive
      refine existsUnique_update (by simp [hnone]) ?_ (ho n hlt hlive')
      simp only [ne_eq, Option.some.injEq]
      exact fun h => hnew h.symm
  | moveConstruct h other =>
    simp only [Handles.step] at hs
    split at hs
    · next p hh hp =>
      cases hs
      exact existsUnique_move hp (by simp [hh]) (ho n hn hlive)
    · cases hs
  | moveAssign h other =>
    simp only [Handles.step] at hs
    split at hs
    · next q p hh hp =>
      cases hs
      refine existsUnique_move hp (fun hheld => ?_) (ho n hn hlive)
      have hdead : s.terminated n = true := hkeeps n hheld
      have hlive : s.terminated n = false := hlive
      rw [hdead] at hlive
      cases hlive
    · cases hs
  | destroy h =>
    simp only [Handles.step] at hs
    split at hs
    · cases hs
    · next hnull =>
      cases hs
      exact existsUnique_update (by simp [hnull]) nofun (ho n hn hlive)
    · next n' hheld =>
      split_ifs at hs with hdead
      cases hs
      have hlive : s.terminated n = false := hlive
      refine existsUnique_update ?_ nofun (ho n hn hlive)
      -- the thread of the destroyed handle is Terminated, `n` is not
      rw [hheld]
      rintro heq
      cases heq
      rw [hdead] at hlive
      cases hlive
  | terminate n' =>
    simp only [Handles.step] at hs
    split_ifs at hs
    cases hs
    refine ho n hn ?_
    simp only [Function.update_apply] at hlive
    split_ifs at hlive
    exact hlive

/-- A move assignment onto a handle that holds a live thread leaves it without. -/
theorem Owned.not_owned_moveAssign (ho : s.Owned) (hk : s.Known) (hheld : s.tcb h = some (some n))
    (hlive : s.terminated n = false) (hs : s.step (.moveAssign h other) = .ok s') :
    ¬ s'.Owned := by
  intro ho'
  have hn := hk h n hheld
  obtain ⟨g₀, -, huniq⟩ := ho n hn hlive
  simp only [Handles.step] at hs
  split at hs
  · next q p hh hp =>
    cases hs
    obtain ⟨g, hg, -⟩ := ho' n hn hlive
    rcases move_tcb hg with ⟨rfl, rfl⟩ | ⟨hne, -, hg⟩
    · -- source and target both held the thread: they are the same handle
      have : other = g := (huniq other hp).trans (huniq g hheld).symm
      subst this
      simp [move] at hg
    · exact hne ((huniq g hg).trans (huniq h hheld).symm)
  · cases hs

/-- The destructor of a handle that holds a live thread does not complete. -/
theorem step_destroy_live (hheld : s.tcb h = some (some n)) (hlive : s.terminated n = false) :
    s.step (.destroy h) = .error .notTerminated := by
  simp [Handles.step, hheld, hlive]

end Handles

/-! ## Whole runs -/

theorem Handles.Known.reach {C : Handles → HandleOp → Prop} {s : Handles}
    (h : handleSystem.ReachVia C s) : s.Known :=
  h.invariant (by rintro _ rfl h n hh; cases hh) fun _ _ _ _ hk _ hs => hk.step hs

theorem Handles.Owned.reach {s : Handles} (h : handleSystem.ReachVia Handles.Keeps s) : s.Owned :=
  h.invariant (by rintro _ rfl n hn; cases hn) fun _ _ _ hr ho hkeeps hs =>
    ho.step (Handles.Known.reach hr) hkeeps hs

/-- **Live threads are owned exactly without careless move assignments**: along a
run, every live thread is held by exactly one handle at all times if and only if no
move assignment (self-assignment included) finds a live thread in its target; and
the destructor never lets one go. -/
theorem owned_iff {N : Nat} (r : handleSystem.Run N) :
    ((∀ i ≤ N, (r.state i).Owned) ↔ ∀ i < N, (r.state i).Keeps (r.label i)) ∧
    ∀ i ≤ N, ∀ h n, (r.state i).tcb h = some (some n) → (r.state i).terminated n = false →
      (r.state i).step (.destroy h) = .error .notTerminated := by
  refine ⟨⟨fun howned i hi => ?_, fun hkeeps i hi => .reach (r.reachVia hkeeps i hi)⟩,
    fun i _ h n hheld hlive => Handles.step_destroy_live hheld hlive⟩
  have hknown : (r.state i).Known :=
    .reach (r.reachVia (C := fun _ _ => True) (fun _ _ => trivial) i (Nat.le_of_lt hi))
  cases hop : r.label i with
  | moveAssign h other =>
    intro n hheld
    by_contra hlive
    have hs : (r.state i).step (.moveAssign h other) = .ok (r.state (i + 1)) := hop ▸ r.next i hi
    exact (howned i (Nat.le_of_lt hi)).not_owned_moveAssign hknown hheld (by simpa using hlive) hs
      (howned (i + 1) hi)
  | _ => trivial

/-- Assigning an empty handle, or itself, to the handle of a live thread completes
and leaves the thread without a handle. -/
theorem move_assignment_detaches :
    (∃ s s', handleSystem.ReachVia (fun _ _ => True) s ∧ s.step (.moveAssign 0 1) = .ok s' ∧
      0 < s'.threads ∧ s'.terminated 0 = false ∧ ∀ h, s'.tcb h ≠ some (some 0)) ∧
    (∃ s s', handleSystem.ReachVia (fun _ _ => True) s ∧ s.step (.moveAssign 0 0) = .ok s' ∧
      0 < s'.threads ∧ s'.terminated 0 = false ∧ ∀ h, s'.tcb h ≠ some (some 0)) := by
  have hone : handleSystem.ReachVia (fun _ _ => True)
      ⟨1, Function.update (fun _ => false) 0 false,
        Function.update (fun _ => none) 0 (some (some 0))⟩ :=
    .step (l := .construct 0) (.init rfl) trivial rfl
  constructor
  · refine ⟨_, _, hone.step (l := .default 1) trivial rfl, rfl, by decide, rfl, fun h => ?_⟩
    simp only [Handles.move, Function.update_apply]
    split_ifs <;> simp
  · refine ⟨_, _, hone, rfl, by decide, rfl, fun h => ?_⟩
    simp only [Handles.move, Function.update_apply]
    split_ifs <;> simp

/-! ## What the handles see of the kernel -/

/-- The handles see the threads of machine `m`. -/
structure Handles.Agrees (s : Handles) (m : Machine) : Prop where
  threads : s.threads = m.kernel.threads
  terminated : ∀ n < s.threads,
    s.terminated n = true ↔ m.kernel.state (.user n) = .terminated

theorem Handles.Agrees.initial (cfg : Config) : Handles.initial.Agrees (Machine.initial cfg) where
  threads := rfl
  terminated n hn := absurd hn (Nat.not_lt_zero n)

/-- **The kernel as the handles see it**: each of its steps constructs a thread, for
whichever handle the application names, or marks one thread Terminated, or changes
nothing that a handle sees. -/
theorem Handles.Agrees.step {cfg : Config} {m m' : Machine} {s : Handles} {l : Label}
    (hm : Reachable cfg m) (hl : l.Valid cfg) (hstep : m.step cfg l = .ok m')
    (hs : s.Agrees m) :
    (∀ h, s.tcb h = none → ∃ s', s.step (.construct h) = .ok s' ∧ s'.Agrees m') ∨
    (∃ n s', s.step (.terminate n) = .ok s' ∧ s'.Agrees m') ∨ s.Agrees m' := by
  obtain ⟨a, ha⟩ := hm.sim
  obtain ⟨a', ht⟩ := ha.trans hl hstep
  have ha' := ht.sim ha
  cases ht.turnover ha with
  | construct hthreads hnew hdead =>
    refine .inl fun h hnone => ⟨_, if_pos hnone, ?_, fun n hn => ?_⟩
    · show s.threads + 1 = _
      rw [hthreads, hs.threads]
    · show Function.update s.terminated s.threads false n = true ↔ _
      rw [ha'.dead_iff]
      by_cases hn' : n = s.threads
      · subst hn'
        rw [Function.update_self, hs.threads]
        simp [hnew]
      · have hlt : n < s.threads := by
          have : n < s.threads + 1 := hn
          omega
        have hne : ThreadRef.user n ≠ .user m.kernel.threads := by
          rw [← hs.threads]
          simpa using hn'
        rw [Function.update_of_ne hn', hs.terminated n hlt, ha.dead_iff, hdead _ hne]
  | @ret c t hl hcur hpc hrun hthreads hdead =>
    -- an idle thread never leaves its loop, so it is a thread of the application that returns
    have hidle : t.isIdle = false := by
      have := (ha.thread t).idle_fiber
      rw [hpc] at this
      simpa using this
    obtain ⟨n, hn, rfl⟩ := ha.constructed hidle (by simp [hrun])
    rw [← hs.threads] at hn
    have hlive : s.terminated n = false := by
      rw [Bool.eq_false_iff, ne_eq, hs.terminated n hn, ha.dead_iff, hrun]
      nofun
    refine .inr (.inl ⟨n, _, if_pos ⟨hn, hlive⟩, hs.threads.trans hthreads.symm, fun n' hn' => ?_⟩)
    show Function.update s.terminated n true n' = true ↔ _
    rw [ha'.dead_iff, hdead, ← ha.dead_iff, ← hs.terminated n' hn']
    by_cases hne : n' = n
    · subst hne
      simp
    · simp [hne]
  | stay hthreads hdead =>
    refine .inr (.inr ⟨hs.threads.trans hthreads.symm, fun n hn => ?_⟩)
    rw [hs.terminated n hn, ha.dead_iff, ha'.dead_iff, hdead]

end Cortos
