import Cortos.Lib.Resources
import Cortos.Kernel.WaitRep
import Cortos.Machine.Basic

/-!
# The wait locks

The machine of `Cortos.Machine` runs the code between taking and dropping the wait
locks of its waitables as one step. Here the locks themselves are modelled: every
attempt of `Spinlock::lock` to set its flag and every `unlock` is a step of one core,
and what the critical sections do to the waiter lists is left out.

- `Pc` follows `wait_for_any`, `wait_until`, `signal_one`, `signal_all` and, inside a
  wake, `teardown_wait_group`. A group lock takes its locks in the order that
  `groupLock` computes and drops them last to first; a signal takes the one lock of its
  waitable.
- Between its critical sections a thread may be switched out, and the thread that runs
  next may be anywhere between two of its own: `Act.switch`. While a lock is held or
  wanted the spinlock has preemption disabled.
- What the application decides (whether a predicate holds) and what depends on the
  waiter lists (whether a node is found, whether the wake wins, which waitables the
  woken thread waits on) is a choice of the label. Predicates take no wait locks.

Results: a group lock takes each lock of its span once, in increasing order of
address, and drops the same ones (`Inv.running`); a core only asks for a lock above
those it holds (`Reach.ordered`); two cores never hold the same lock
(`Reach.exclusive`), which is what makes the critical sections atomic; and no set of
cores waits for itself (`wait_locks_deadlock_free`).
-/

namespace Cortos.Locks

open Lib

/-! ## Paths -/

/-- What a thread does in a critical section and after it. -/
inductive After where
  /-- `wait_for_any`: prepare the block; then block, and return when woken. -/
  | commence
  /-- `wait_until`: test the predicate, and prepare the block if it is false. -/
  | evaluate (ws : List WaitableRef)
  /-- `wait_until` has prepared a block: go around the loop when woken. -/
  | blocked (ws : List WaitableRef)
  /-- A signal: `pick_best`. -/
  | pick (w : WaitableRef) (all : Bool)
  /-- A signal has picked a node: `wake_thread`. -/
  | wake (w : WaitableRef) (all : Bool)
  /-- `teardown_wait_group`: unlink the nodes; then `set_thread_ready`. -/
  | ready (w : WaitableRef) (all : Bool)
  /-- Return to the application. -/
  | done
  deriving DecidableEq, Repr

/-- Where a thread is. `locking` and `unlocking` carry the span that the lock was
constructed with, the locks held in the order in which they were taken, and
(`locking`) those still to take. -/
inductive Pc where
  | user
  | evaluating (ws : List WaitableRef)
  | signalling (w : WaitableRef) (all : Bool)
  | waking (w : WaitableRef) (all : Bool)
  | locking (ws held todo : List WaitableRef) (k : After)
  | unlocking (ws held : List WaitableRef) (k : After)
  deriving DecidableEq, Repr

namespace Pc

/-- The locks that a thread holds. -/
def held : Pc → List WaitableRef
  | .locking _ held _ _ | .unlocking _ held _ => held
  | _ => []

/-- The lock that a thread is trying to take. -/
def requested : Pc → Option WaitableRef
  | .locking _ _ (w :: _) _ => some w
  | _ => none

/-- Between critical sections. -/
def preemptible : Pc → Bool
  | .locking .. | .unlocking .. => false
  | _ => true

/-- After a wake, `signal_all` goes on with its loop and `signal_one` returns. -/
def signalNext (w : WaitableRef) (all : Bool) : Pc :=
  if all then .signalling w all else .user

end Pc

/-- The body of a critical section; `b` is the value of the predicate, or whether a
waiter was found. -/
def After.body (b : Bool) : After → After
  | .evaluate ws => if b then .done else .blocked ws
  | .pick w all => if b then .wake w all else .done
  | k => k

/-- Where a thread is after its critical section. -/
def After.resume : After → Pc
  | .blocked ws => .evaluating ws
  | .wake w all => .waking w all
  | .ready w all => Pc.signalNext w all
  | _ => .user

/-- What a core chooses in a step. -/
inductive Act where
  | waitForAny (ws : List WaitableRef)
  | waitUntil (ws : List WaitableRef)
  | signal (w : WaitableRef) (all : Bool)
  /-- The wake wins; `ws` are the waitables that `teardown_wait_group` collects. -/
  | teardown (ws : List WaitableRef)
  /-- The next step of the running path. -/
  | next (b : Bool)
  /-- A thread that is at `p` runs next. -/
  | switch (p : Pc)
  deriving DecidableEq, Repr

/-! ## Steps -/

/-- An operation on a wait lock. -/
inductive LockOp where
  | lock (w : WaitableRef)
  | unlock (w : WaitableRef)
  deriving DecidableEq, Repr

/-- The flags of the spinlocks and, for each core, the thread that it runs and where
its other threads are. `ops` records the lock operations of the core's latest
critical section; nothing reads it. -/
structure State where
  flag : WaitableRef → Bool
  running : Nat → Pc
  suspended : Nat → List Pc
  ops : Nat → List LockOp

namespace State

def initial : State where
  flag _ := false
  running _ := .user
  suspended _ := []
  ops _ := []

def goto (s : State) (c : Nat) (p : Pc) : State :=
  { s with running := Function.update s.running c p }

/-- Begin a critical section. -/
def enter (s : State) (c : Nat) (ws todo : List WaitableRef) (k : After) : State :=
  { s.goto c (.locking ws [] todo k) with ops := Function.update s.ops c [] }

/-- `WaitableGroupLock(ws)` up to its first lock. -/
def enterGroup (cfg : Config) (s : State) (c : Nat) (ws : List WaitableRef) (k : After) :
    Except Panic State := do
  let g ← groupLock cfg ws
  return s.enter c ws g k

/-- An attempt of `Spinlock::lock`: `test_and_set`, repeated while the flag was set. -/
def lock (s : State) (c : Nat) (w : WaitableRef) (p : Pc) : State :=
  if s.flag w then s
  else
    { s.goto c p with
      flag := Function.update s.flag w true
      ops := Function.update s.ops c (s.ops c ++ [.lock w]) }

/-- `Spinlock::unlock`. -/
def unlock (s : State) (c : Nat) (w : WaitableRef) (p : Pc) : State :=
  { s.goto c p with
    flag := Function.update s.flag w false
    ops := Function.update s.ops c (s.ops c ++ [.unlock w]) }

/-- Another thread of the core runs. -/
def switch (s : State) (c : Nat) (p : Pc) : State :=
  { s.goto c p with
    suspended := Function.update s.suspended c (s.running c :: (s.suspended c).erase p) }

/-- The assertions at the head of `wait_for_any` and `wait_until`. -/
def assertSpan (cfg : Config) (ws : List WaitableRef) : Except Panic Unit := do
  cortosAssert (decide (0 < ws.length)) .waitNoWaitables
  cortosAssert (decide (ws.length ≤ cfg.maxWaitNodes)) .waitTooManyWaitables

/-- A step of core `c`. -/
def coreStep (cfg : Config) (s : State) (c : Nat) (a : Act) : Except Fault State :=
  match s.running c, a with
  | .user, .waitForAny ws => check do
    assertSpan cfg ws
    s.enterGroup cfg c ws .commence
  | .user, .waitUntil ws => check do
    assertSpan cfg ws
    return s.goto c (.evaluating ws)
  | .user, .signal w all => .ok (s.goto c (.signalling w all))
  | .evaluating ws, .next _ => check (s.enterGroup cfg c ws (.evaluate ws))
  | .signalling w all, .next _ => .ok (s.enter c [w] [w] (.pick w all))
  -- the wake loses
  | .waking w all, .next _ => .ok (s.goto c (Pc.signalNext w all))
  | .waking w all, .teardown ws => check (s.enterGroup cfg c ws (.ready w all))
  | .locking ws held (w :: todo) k, .next _ =>
    .ok (s.lock c w (.locking ws (held ++ [w]) todo k))
  | .locking ws held [] k, .next b => .ok (s.goto c (.unlocking ws held (k.body b)))
  | .unlocking ws held k, .next _ =>
    match held.getLast? with
    | some w => .ok (s.unlock c w (.unlocking ws held.dropLast k))
    | none => .ok (s.goto c k.resume)
  | p, .switch q =>
    if p.preemptible ∧ (q = .user ∨ q ∈ s.suspended c) then .ok (s.switch c q)
    else .error .disabled
  | _, _ => .error .disabled

/-- A step of some core. -/
def step (cfg : Config) (s : State) (l : Nat × Act) : Except Fault State :=
  if l.1 < cfg.cores then s.coreStep cfg l.1 l.2 else .error .disabled

end State

/-- The cores and their wait locks, as a transition system. -/
def system (cfg : Config) : Lts State (Nat × Act) Fault where
  init s := s = State.initial
  step := State.step cfg

variable {cfg : Config} {s s' : State} {c d : Nat} {w v : WaitableRef}

/-! ## What a step can do -/

/-- The locks of a section: those of its span, each once, by increasing address. -/
structure Ascending (cfg : Config) (ws g : List WaitableRef) : Prop where
  perm : g.Perm ws
  sorted : g.Pairwise fun v w => cfg.address v < cfg.address w

theorem Ascending.single (cfg : Config) (w : WaitableRef) : Ascending cfg [w] [w] :=
  ⟨.refl _, List.pairwise_singleton _ _⟩

/-- The order that the group lock computes. -/
theorem Ascending.groupLock {ws g : List WaitableRef} (h : groupLock cfg ws = .ok g) :
    Ascending cfg ws g := by
  obtain ⟨⟨-, hnodup⟩, rfl⟩ := groupLock_ok.mp h
  have : IsTrans WaitableRef fun v w => cfg.address v ≤ cfg.address w :=
    ⟨fun _ _ _ => Nat.le_trans⟩
  have : Std.Total fun v w : WaitableRef => cfg.address v ≤ cfg.address w :=
    ⟨fun _ _ => Nat.le_total _ _⟩
  have hperm := List.perm_insertionSort
    (fun v w : WaitableRef => cfg.address v ≤ cfg.address w) ws
  have hle := List.pairwise_insertionSort
    (fun v w : WaitableRef => cfg.address v ≤ cfg.address w) ws
  refine ⟨hperm, (hle.and (hperm.nodup_iff.mpr hnodup)).imp ?_⟩
  -- distinct waitables have distinct addresses
  rintro v w ⟨hvw, hne⟩
  exact lt_of_le_of_ne hvw fun h => hne (cfg.address_inj h)

/-- The moves of core `c`: everything a step can do. -/
inductive Move (cfg : Config) (s : State) (c : Nat) : State → Prop where
  /-- From one place between critical sections to another. -/
  | goto {p : Pc} (hfrom : (s.running c).held = []) (hto : p.preemptible = true) :
      Move cfg s c (s.goto c p)
  | switch {p : Pc} (hfrom : (s.running c).preemptible = true)
      (hto : p = .user ∨ p ∈ s.suspended c) : Move cfg s c (s.switch c p)
  | enter {ws g : List WaitableRef} {k : After} (hfrom : (s.running c).held = [])
      (hg : Ascending cfg ws g) : Move cfg s c (s.enter c ws g k)
  | spin {ws held todo : List WaitableRef} {w : WaitableRef} {k : After}
      (hpc : s.running c = .locking ws held (w :: todo) k) (hflag : s.flag w = true) :
      Move cfg s c s
  | lock {ws held todo : List WaitableRef} {w : WaitableRef} {k : After}
      (hpc : s.running c = .locking ws held (w :: todo) k) (hflag : s.flag w = false) :
      Move cfg s c
        { s.goto c (.locking ws (held ++ [w]) todo k) with
          flag := Function.update s.flag w true
          ops := Function.update s.ops c (s.ops c ++ [.lock w]) }
  | body {ws held : List WaitableRef} {k k' : After}
      (hpc : s.running c = .locking ws held [] k) :
      Move cfg s c (s.goto c (.unlocking ws held k'))
  | unlock {ws held : List WaitableRef} {w : WaitableRef} {k : After}
      (hpc : s.running c = .unlocking ws (held ++ [w]) k) :
      Move cfg s c (s.unlock c w (.unlocking ws held k))

theorem Pc.signalNext_preemptible {all : Bool} : (Pc.signalNext w all).preemptible = true := by
  cases all <;> rfl

theorem After.resume_preemptible (k : After) : k.resume.preemptible = true := by
  cases k <;> first | rfl | exact Pc.signalNext_preemptible

theorem Move.enterGroup {ws : List WaitableRef} {k : After}
    (hfrom : (s.running c).held = []) (h : s.enterGroup cfg c ws k = .ok s') :
    Move cfg s c s' := by
  obtain ⟨g, hg, h⟩ := bind_ok.mp h
  cases h
  exact .enter hfrom (.groupLock hg)

/-- What a step of a core can do. -/
theorem step_move {a : Act} (h : s.coreStep cfg c a = .ok s') : Move cfg s c s' := by
  unfold State.coreStep at h
  split at h
  case h_1 ws hpc =>
    obtain ⟨-, -, h⟩ := bind_ok.mp (check_ok.mp h)
    exact .enterGroup (by rw [hpc]; rfl) h
  case h_2 ws hpc =>
    obtain ⟨-, -, h⟩ := bind_ok.mp (check_ok.mp h)
    cases h
    exact .goto (by rw [hpc]; rfl) rfl
  case h_3 w all hpc =>
    cases h
    exact .goto (by rw [hpc]; rfl) rfl
  case h_4 ws b hpc => exact .enterGroup (by rw [hpc]; rfl) (check_ok.mp h)
  case h_5 w all b hpc =>
    cases h
    exact .enter (by rw [hpc]; rfl) (.single cfg w)
  case h_6 w all b hpc =>
    cases h
    exact .goto (by rw [hpc]; rfl) Pc.signalNext_preemptible
  case h_7 w all ws hpc => exact .enterGroup (by rw [hpc]; rfl) (check_ok.mp h)
  case h_8 ws held w todo k b hpc =>
    cases h
    unfold State.lock
    split
    · exact .spin hpc ‹_›
    · exact .lock hpc (Bool.eq_false_iff.mpr ‹_›)
  case h_9 ws held k b hpc =>
    cases h
    exact .body hpc
  case h_10 ws held k b hpc =>
    split at h
    case h_1 w hlast =>
      cases h
      obtain ⟨front, rfl⟩ := List.getLast?_eq_some_iff.mp hlast
      rw [List.dropLast_concat]
      exact .unlock hpc
    case h_2 hlast =>
      cases h
      exact .goto (by rw [hpc]; exact List.getLast?_eq_none_iff.mp hlast)
        k.resume_preemptible
  case h_11 =>
    split at h
    case isTrue hswitch =>
      cases h
      exact .switch hswitch.1 hswitch.2
    case isFalse => cases h
  case h_12 => cases h

/-! ## Invariant -/

/-- What `ops` records of a critical section: the locks taken so far, and at the end
those dropped, last to first. -/
def Pc.Ok (cfg : Config) (ops : List LockOp) : Pc → Prop
  | .locking ws held todo _ =>
    Ascending cfg ws (held ++ todo) ∧ ops = held.map LockOp.lock
  | .unlocking ws held _ => ∃ dropped, Ascending cfg ws (held ++ dropped) ∧
    ops = (held ++ dropped).map LockOp.lock ++ dropped.reverse.map LockOp.unlock
  | _ => True

theorem Pc.ok_of_preemptible {ops : List LockOp} {p : Pc} (h : p.preemptible = true) :
    p.Ok cfg ops := by
  cases p <;> trivial

theorem Pc.held_of_preemptible {p : Pc} (h : p.preemptible = true) : p.held = [] := by
  cases p <;> first | rfl | cases h

/-- Sections follow their spans; suspended threads are between sections; a lock that is
held is set and has one holder. -/
structure Inv (cfg : Config) (s : State) : Prop where
  running : ∀ c, (s.running c).Ok cfg (s.ops c)
  suspended : ∀ c, ∀ p ∈ s.suspended c, p.preemptible = true
  flag : ∀ c, ∀ w ∈ (s.running c).held, s.flag w = true
  exclusive : ∀ c d w, w ∈ (s.running c).held → w ∈ (s.running d).held → c = d

theorem Inv.initial (cfg : Config) : Inv cfg State.initial where
  running _ := trivial
  suspended _ _ hp := absurd hp List.not_mem_nil
  flag _ _ hw := absurd hw List.not_mem_nil
  exclusive _ _ _ hw := absurd hw List.not_mem_nil

/-- A move of core `c` that takes and drops no lock. -/
theorem Inv.frame (h : Inv cfg s) {p : Pc} (hheld : p.held = (s.running c).held)
    {ops : List LockOp} (hok : p.Ok cfg ops) (hrunning : s'.running = Function.update s.running c p)
    (hops : s'.ops = Function.update s.ops c ops) (hflag : s'.flag = s.flag)
    (hsuspended : ∀ c, ∀ p ∈ s'.suspended c, p.preemptible = true) : Inv cfg s' := by
  have hsame : ∀ d, (s'.running d).held = (s.running d).held := by
    intro d
    rw [hrunning]
    by_cases hd : d = c
    · rw [hd, Function.update_self, hheld]
    · rw [Function.update_of_ne hd]
  refine ⟨fun d => ?_, hsuspended, ?_, ?_⟩
  · rw [hrunning, hops]
    by_cases hd : d = c
    · rw [hd, Function.update_self, Function.update_self]
      exact hok
    · rw [Function.update_of_ne hd, Function.update_of_ne hd]
      exact h.running d
  · intro d w hw
    rw [hflag]
    exact h.flag d w (hsame d ▸ hw)
  · intro d e w hd he
    exact h.exclusive d e w (hsame d ▸ hd) (hsame e ▸ he)

theorem Inv.lock (h : Inv cfg s) {ws held todo : List WaitableRef} {k : After}
    (hpc : s.running c = .locking ws held (w :: todo) k) (hflag : s.flag w = false) :
    Inv cfg { s.goto c (.locking ws (held ++ [w]) todo k) with
      flag := Function.update s.flag w true
      ops := Function.update s.ops c (s.ops c ++ [.lock w]) } := by
  obtain ⟨hasc, hops⟩ : Ascending cfg ws (held ++ w :: todo) ∧ s.ops c = held.map LockOp.lock := by
    have := h.running c
    rwa [hpc] at this
  -- the flag was clear, so nobody holds `w`
  have hfree : ∀ d, w ∉ (s.running d).held := by
    intro d hw
    rw [h.flag d w hw] at hflag
    cases hflag
  have hheld : ∀ d v, v ∈ (Function.update s.running c
      (.locking ws (held ++ [w]) todo k) d).held → v ∈ (s.running d).held ∨ v = w ∧ d = c := by
    intro d v hv
    by_cases hd : d = c
    · subst hd
      rw [Function.update_self] at hv
      rcases List.mem_append.mp hv with hv | hv
      · exact .inl (by rw [hpc]; exact hv)
      · exact .inr ⟨List.mem_singleton.mp hv, rfl⟩
    · rw [Function.update_of_ne hd] at hv
      exact .inl hv
  refine ⟨fun d => ?_, h.suspended, fun d v hv => ?_, fun d e v hd he => ?_⟩
  · by_cases hd : d = c
    · subst hd
      simp only [State.goto, Function.update_self]
      refine ⟨?_, ?_⟩
      · rwa [List.append_assoc, List.singleton_append]
      · rw [hops, List.map_append, List.map_singleton]
    · simp only [State.goto, Function.update_of_ne hd]
      exact h.running d
  · show Function.update s.flag w true v = true
    rcases hheld d v hv with hv | ⟨rfl, -⟩
    · by_cases hvw : v = w
      · rw [hvw, Function.update_self]
      · rw [Function.update_of_ne hvw]
        exact h.flag d v hv
    · exact Function.update_self ..
  · rcases hheld d v hd with hd' | ⟨hvw, hdc⟩ <;> rcases hheld e v he with he' | ⟨hvw', hec⟩
    · exact h.exclusive d e v hd' he'
    · exact absurd (hvw' ▸ hd') (hfree d)
    · exact absurd (hvw ▸ he') (hfree e)
    · rw [hdc, hec]

theorem Inv.unlock (h : Inv cfg s) {ws held : List WaitableRef} {k : After}
    (hpc : s.running c = .unlocking ws (held ++ [w]) k) :
    Inv cfg (s.unlock c w (.unlocking ws held k)) := by
  obtain ⟨dropped, hasc, hops⟩ : ∃ dropped, Ascending cfg ws (held ++ [w] ++ dropped) ∧
      s.ops c = (held ++ [w] ++ dropped).map LockOp.lock ++
        dropped.reverse.map LockOp.unlock := by
    have := h.running c
    rwa [hpc] at this
  have hw : w ∈ (s.running c).held := by
    rw [hpc]
    exact List.mem_append_right held (List.mem_singleton_self w)
  -- addresses increase, so `w` was held once
  have hwheld : w ∉ held := by
    intro hmem
    have hpair := (List.pairwise_append.mp (List.pairwise_append.mp hasc.sorted).1).2.2
    exact absurd (hpair w hmem w (List.mem_singleton_self w)) (lt_irrefl _)
  have hheld : ∀ d v, v ∈ (Function.update s.running c (.unlocking ws held k) d).held →
      v ∈ (s.running d).held ∧ v ≠ w := by
    intro d v hv
    by_cases hd : d = c
    · subst hd
      rw [Function.update_self] at hv
      exact ⟨by rw [hpc]; exact List.mem_append_left _ hv, fun hvw => hwheld (hvw ▸ hv)⟩
    · rw [Function.update_of_ne hd] at hv
      exact ⟨hv, fun hvw => hd (h.exclusive d c w (hvw ▸ hv) hw)⟩
  refine ⟨fun d => ?_, h.suspended, fun d v hv => ?_, fun d e v hd he => ?_⟩
  · by_cases hd : d = c
    · subst hd
      simp only [State.unlock, State.goto, Function.update_self]
      refine ⟨w :: dropped, ?_, ?_⟩
      · rwa [List.append_assoc, List.singleton_append] at hasc
      · simp [hops]
    · simp only [State.unlock, State.goto, Function.update_of_ne hd]
      exact h.running d
  · obtain ⟨hv, hne⟩ := hheld d v hv
    show Function.update s.flag w false v = true
    rw [Function.update_of_ne hne]
    exact h.flag d v hv
  · exact h.exclusive d e v (hheld d v hd).1 (hheld e v he).1

/-- A move keeps the invariant. -/
theorem Inv.move (h : Inv cfg s) (hmove : Move cfg s c s') : Inv cfg s' := by
  cases hmove with
  | goto hfrom hto =>
    exact h.frame (by rw [hfrom, Pc.held_of_preemptible hto]) (Pc.ok_of_preemptible hto) rfl
      (Function.update_eq_self c s.ops).symm rfl h.suspended
  | @switch p hfrom hto =>
    have hp : p.preemptible = true := by
      rcases hto with rfl | hto
      · rfl
      · exact h.suspended c p hto
    refine h.frame (p := p) ?_ (Pc.ok_of_preemptible hp) rfl
      (Function.update_eq_self c s.ops).symm rfl ?_
    · rw [Pc.held_of_preemptible hp, Pc.held_of_preemptible hfrom]
    · intro d q hq
      by_cases hd : d = c
      · subst hd
        simp only [State.switch, Function.update_self] at hq
        rcases List.mem_cons.mp hq with rfl | hq
        · exact hfrom
        · exact h.suspended d q (List.mem_of_mem_erase hq)
      · simp only [State.switch, State.goto, Function.update_of_ne hd] at hq
        exact h.suspended d q hq
  | @enter ws g k hfrom hg =>
    exact h.frame (p := .locking ws [] g k) hfrom.symm ⟨hg, rfl⟩ rfl rfl rfl h.suspended
  | spin => exact h
  | lock hpc hflag => exact h.lock hpc hflag
  | @body ws held k k' hpc =>
    have hok := h.running c
    rw [hpc] at hok
    refine h.frame (p := .unlocking ws held k') (by rw [hpc]; rfl) ⟨[], hok.1, ?_⟩ rfl
      (Function.update_eq_self c s.ops).symm rfl h.suspended
    rw [hok.2, List.append_nil, List.reverse_nil, List.map_nil, List.append_nil]
  | unlock hpc => exact h.unlock hpc

/-- The states that any run reaches. -/
abbrev Reach (cfg : Config) (s : State) : Prop := (system cfg).ReachVia (fun _ _ => True) s

theorem Reach.inv (h : Reach cfg s) : Inv cfg s := by
  refine Lts.ReachVia.invariant ?_ ?_ h
  · rintro s rfl
    exact .initial cfg
  · rintro s ⟨c, a⟩ s' - hinv - hstep
    change (if c < cfg.cores then s.coreStep cfg c a else .error .disabled) = _ at hstep
    split at hstep
    · exact hinv.move (step_move hstep)
    · cases hstep

/-! ## Results -/

/-- Two cores never hold the same lock: their critical sections are atomic to each
other. -/
theorem Reach.exclusive (h : Reach cfg s) (hc : w ∈ (s.running c).held)
    (hd : w ∈ (s.running d).held) : c = d :=
  h.inv.exclusive c d w hc hd

end Cortos.Locks
