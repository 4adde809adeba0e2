import Cortos.Lib.Transition
import Cortos.Kernel.Scheduling

/-!
# Spinlocks and the preemption depth (`kernel.cpp:315–328`, `spin_lock.hpp`)

`Spinlock::lock` raises `preempt_disable_depth` of the calling core before it spins and
`unlock` lowers it after it has cleared the flag. `try_lock` does not touch it, although what
it acquires is given back by the same `unlock`.

- `SpinlockCall`, `lockSystem c`: the calls made on core `c`, in any order and on any number of
  locks, with the other cores taking and dropping the locks that core `c` does not hold. Any
  number of threads of the core may be inside `lock` at a time.
- `SpinlockCall.Within`: a lock is unlocked only while held, and the 32-bit depth is not exhausted.
- `Accounts`: every lock held and every call of `lock` in progress has raised the depth,
  apart from the acquisitions by `try_lock`.
- `depth_balanced_iff`: so the depth is right exactly as long as no `try_lock` has succeeded.
-/

namespace Cortos.Locks

open Lib

/-! ## The calls -/

/-- `flag.test_and_set`: the old value, and the kernel with the flag set. -/
def testAndSet (k : Kernel) (l : Nat) : Bool × Kernel :=
  (k.spinlocks l, { k with spinlocks := Function.update k.spinlocks l true })

theorem testAndSet_of_set {k : Kernel} {l : Nat} (h : k.spinlocks l = true) :
    testAndSet k l = (true, k) := by
  rw [testAndSet, h, Function.update_eq_self_iff.mpr h.symm]

/-- `Spinlock::try_lock`. -/
def tryLock (k : Kernel) (l : Nat) : Bool × Kernel :=
  let (old, k') := testAndSet k l
  (!old, k')

/-- `Spinlock::unlock` on core `c`. -/
def unlock (k : Kernel) (c l : Nat) : Except Panic Kernel :=
  Scheduler.enablePreemption { k with spinlocks := Function.update k.spinlocks l false } c

/-- The kernel, and what the calls made on one core have come to. -/
structure CoreLocks where
  kernel : Kernel
  /-- The locks held on the core. -/
  held : List Nat := []
  /-- The locks for which a call of `lock` is in its loop. -/
  spinning : List Nat := []
  /-- How many calls of `try_lock` have returned true. -/
  tried : Nat := 0

inductive SpinlockCall where
  /-- `Spinlock::lock`, up to its loop. -/
  | lock (l : Nat)
  /-- One round of the loop of `Spinlock::lock`. -/
  | spin (l : Nat)
  | tryLock (l : Nat)
  | unlock (l : Nat)
  /-- Another core takes or drops a lock. -/
  | other (l : Nat) (taken : Bool)

namespace CoreLocks

/-- The loop of `lock` is left when the flag was clear. -/
def spin (s : CoreLocks) (l : Nat) : CoreLocks :=
  match testAndSet s.kernel l with
  | (true, k) => { s with kernel := k }
  | (false, k) =>
    { s with kernel := k, held := l :: s.held, spinning := s.spinning.erase l }

def tryLock (s : CoreLocks) (l : Nat) : CoreLocks :=
  match Locks.tryLock s.kernel l with
  | (true, k) => { s with kernel := k, held := l :: s.held, tried := s.tried + 1 }
  | (false, k) => { s with kernel := k }

def unlock (s : CoreLocks) (c l : Nat) : Except Panic CoreLocks := do
  let k ← Locks.unlock s.kernel c l
  return { s with kernel := k, held := s.held.erase l }

/-- `preempt_disable_depth` of core `c`. -/
def depth (s : CoreLocks) (c : Nat) : Nat := (s.kernel.schedulers c).preemptDisableDepth

end CoreLocks

/-- The calls made on core `c`, from a kernel in which nothing is locked. -/
def lockSystem (c : Nat) : Lts CoreLocks SpinlockCall Panic where
  init s := ∃ k : Kernel, (k.schedulers c).preemptDisableDepth = 0 ∧ s = { kernel := k }
  step s
    | .lock l => .ok { s with
        kernel := Scheduler.disablePreemption s.kernel c, spinning := l :: s.spinning }
    | .spin l => .ok (s.spin l)
    | .tryLock l => .ok (s.tryLock l)
    | .unlock l => s.unlock c l
    | .other l taken => .ok { s with
        kernel := { s.kernel with spinlocks := Function.update s.kernel.spinlocks l taken } }

/-- A lock is unlocked only while held, the loop of `lock` runs only after its start, the
other cores leave the locks of this one alone, and the depth fits its 32 bits. -/
def SpinlockCall.Within (s : CoreLocks) : SpinlockCall → Prop
  | .lock _ => s.held.length + s.spinning.length + 1 < 2 ^ 32
  | .spin l => l ∈ s.spinning
  | .tryLock _ => True
  | .unlock l => l ∈ s.held
  | .other l _ => l ∉ s.held

instance (s : CoreLocks) : DecidablePred (SpinlockCall.Within s)
  | .lock _ => inferInstanceAs (Decidable (_ < _))
  | .spin _ | .unlock _ => inferInstanceAs (Decidable (_ ∈ _))
  | .tryLock _ => inferInstanceAs (Decidable True)
  | .other _ _ => inferInstanceAs (Decidable (_ ∉ _))

/-! ## The accounts -/

/-- What has raised the depth and not lowered it again. -/
structure Accounts (c : Nat) (s : CoreLocks) : Prop where
  nodup : s.held.Nodup
  flag : ∀ l ∈ s.held, s.kernel.spinlocks l = true
  depth : s.depth c + s.tried = s.held.length + s.spinning.length

namespace Accounts

variable {c : Nat} {s s' : CoreLocks}

/-- `unlock` passes its assertion while the depth is positive. -/
theorem unlock_ok_iff {k : Kernel} {c l : Nat} :
    (∃ k', unlock k c l = .ok k') ↔ 0 < (k.schedulers c).preemptDisableDepth := by
  constructor
  · rintro ⟨k', hk⟩
    exact (Scheduler.enablePreemption_ok.mp hk).1
  · intro hpos
    exact ⟨_, Scheduler.enablePreemption_ok.mpr ⟨hpos, rfl⟩⟩

/-- A lock whose flag was clear is not among those held, and joins them. -/
theorem acquire (h : Accounts c s) {l : Nat} (hclear : s.kernel.spinlocks l = false) :
    (l :: s.held).Nodup ∧
      ∀ l' ∈ l :: s.held, Function.update s.kernel.spinlocks l true l' = true := by
  constructor
  · refine List.nodup_cons.mpr ⟨fun hl => ?_, h.nodup⟩
    rw [h.flag l hl] at hclear
    cases hclear
  · intro l' hl'
    by_cases heq : l' = l
    · rw [heq, Function.update_self]
    · rw [Function.update_of_ne heq]
      exact h.flag l' ((List.mem_cons.mp hl').resolve_left heq)

theorem lock (h : Accounts c s) (l : Nat) (hfit : s.held.length + s.spinning.length + 1 < 2 ^ 32) :
    Accounts c { s with
      kernel := Scheduler.disablePreemption s.kernel c, spinning := l :: s.spinning } where
  nodup := h.nodup
  flag := h.flag
  depth := by
    have hdepth := h.depth
    have hone : u32 (s.depth c + 1) = s.depth c + 1 := Nat.mod_eq_of_lt (by omega)
    simp only [CoreLocks.depth, Scheduler.disablePreemption, Kernel.modifySched,
      Function.update_self, List.length_cons] at hone hdepth ⊢
    omega

theorem spin (h : Accounts c s) {l : Nat} (hl : l ∈ s.spinning) : Accounts c (s.spin l) := by
  have hdepth := h.depth
  cases hflag : s.kernel.spinlocks l with
  | true =>
    rw [CoreLocks.spin, testAndSet_of_set hflag]
    exact h
  | false =>
    simp only [CoreLocks.spin, testAndSet, hflag]
    obtain ⟨hnodup, hset⟩ := h.acquire hflag
    have hpos := List.length_pos_of_mem hl
    refine ⟨hnodup, hset, ?_⟩
    show s.depth c + s.tried = (l :: s.held).length + (s.spinning.erase l).length
    rw [List.length_cons, List.length_erase_of_mem hl]
    omega

theorem tryLock (h : Accounts c s) (l : Nat) : Accounts c (s.tryLock l) := by
  have hdepth := h.depth
  cases hflag : s.kernel.spinlocks l with
  | true =>
    rw [CoreLocks.tryLock, Locks.tryLock, testAndSet_of_set hflag]
    exact h
  | false =>
    simp only [CoreLocks.tryLock, Locks.tryLock, testAndSet, hflag, Bool.not_false]
    obtain ⟨hnodup, hset⟩ := h.acquire hflag
    refine ⟨hnodup, hset, ?_⟩
    show s.depth c + (s.tried + 1) = (l :: s.held).length + s.spinning.length
    rw [List.length_cons]
    omega

theorem unlock (h : Accounts c s) {l : Nat} (hl : l ∈ s.held) (hstep : s.unlock c l = .ok s') :
    Accounts c s' := by
  have hdepth := h.depth
  have hpos := List.length_pos_of_mem hl
  simp only [CoreLocks.unlock, bind_ok, pure, Except.pure, Except.ok.injEq] at hstep
  obtain ⟨k, hunlock, rfl⟩ := hstep
  obtain ⟨hd, rfl⟩ := Scheduler.enablePreemption_ok.mp hunlock
  have hd : 0 < (s.kernel.schedulers c).preemptDisableDepth := hd
  refine ⟨h.nodup.erase l, fun l' hl' => ?_, ?_⟩
  · obtain ⟨hne, hmem⟩ := h.nodup.mem_erase_iff.mp hl'
    show Function.update s.kernel.spinlocks l false l' = true
    rw [Function.update_of_ne hne]
    exact h.flag l' hmem
  · simp only [CoreLocks.depth, Kernel.modifySched, Function.update_self,
      List.length_erase_of_mem hl] at hdepth ⊢
    omega

theorem other (h : Accounts c s) {l : Nat} (hl : l ∉ s.held) (taken : Bool) :
    Accounts c { s with
      kernel := { s.kernel with spinlocks := Function.update s.kernel.spinlocks l taken } } where
  nodup := h.nodup
  flag l' hl' := by
    show Function.update s.kernel.spinlocks l taken l' = true
    rw [Function.update_of_ne (by rintro rfl; exact hl hl')]
    exact h.flag l' hl'
  depth := h.depth

theorem step (h : Accounts c s) {op : SpinlockCall} (hin : op.Within s)
    (hstep : (lockSystem c).step s op = .ok s') : Accounts c s' := by
  cases op with
  | lock l =>
    cases hstep
    exact h.lock l hin
  | spin l =>
    cases hstep
    exact h.spin hin
  | tryLock l =>
    cases hstep
    exact h.tryLock l
  | unlock l => exact h.unlock hin hstep
  | other l taken =>
    cases hstep
    exact h.other hin taken

theorem reach (h : (lockSystem c).ReachVia (fun s op => op.Within s) s) : Accounts c s := by
  refine Lts.ReachVia.invariant (I := fun s => Accounts c s) ?_ ?_ h
  · rintro s ⟨k, hk, rfl⟩
    exact ⟨List.nodup_nil, nofun, hk⟩
  · exact fun _ _ _ _ hs hin hstep => hs.step hin hstep

end Accounts

/-! ## The result -/

/-- **When the preemption depth is balanced.** After every sequence of calls on one core, with
any number of locks, the depth of the core is the number of locks held on it (and of calls of
`lock` that are still spinning) if and only if no `try_lock` has succeeded, and then `unlock`
of a lock that is held never fails its assertion. In general `unlock` fails as soon as there
have been as many successful calls of `try_lock` as there are locks held. -/
theorem depth_balanced_iff (c : Nat) {s : CoreLocks}
    (hreach : (lockSystem c).ReachVia (fun s op => op.Within s) s) :
    s.held.Nodup ∧
    (s.depth c = s.held.length + s.spinning.length ↔ s.tried = 0) ∧
    (s.tried = 0 → ∀ l ∈ s.held, ∃ k, unlock s.kernel c l = .ok k) ∧
    ∀ l, (∃ k, unlock s.kernel c l = .ok k) ↔ s.tried < s.held.length + s.spinning.length := by
  have h := Accounts.reach hreach
  have hdepth := h.depth
  have hunlock : ∀ l, (∃ k, unlock s.kernel c l = .ok k) ↔
      s.tried < s.held.length + s.spinning.length := by
    intro l
    rw [Accounts.unlock_ok_iff]
    show 0 < s.depth c ↔ _
    omega
  refine ⟨h.nodup, by omega, fun hzero l hl => ?_, hunlock⟩
  have hpos := List.length_pos_of_mem hl
  exact (hunlock l).mpr (by omega)

/-- A core that has locked nothing. -/
def unlocked : CoreLocks := { kernel := Kernel.initialised (defaultConfig 1 Nat.one_pos) }

theorem unlocked_reached : (lockSystem 0).ReachVia (fun s op => op.Within s) unlocked :=
  .init ⟨_, rfl, rfl⟩

/-- Two nested locks, and a `try_lock` that finds the first of them taken. -/
theorem nested_locks_balanced : ∃ s : CoreLocks,
    (s.held = [1, 0] ∧ s.spinning = [] ∧ s.tried = 0) ∧ s.depth 0 = 2 ∧
    ∃ k, unlock s.kernel 0 1 = .ok k := by
  have hrun : (lockSystem 0).runsTo (fun s op => op.Within s)
      (fun s => s.held = [1, 0] ∧ s.spinning = [] ∧ s.tried = 0) unlocked
      [.lock 0, .spin 0, .tryLock 0, .lock 1, .spin 1] = true := by
    decide
  obtain ⟨s, hreach, hheld, hspin, htried⟩ := unlocked_reached.runsTo hrun
  have h := depth_balanced_iff 0 hreach
  refine ⟨s, ⟨hheld, hspin, htried⟩, ?_, h.2.2.1 htried 1 (by simp [hheld])⟩
  rw [h.2.1.mpr htried, hheld, hspin]
  rfl

/-- **A successful `try_lock` is not counted.** The first lock of a core is acquired by
`try_lock`: one lock is held at depth 0, and the `unlock` that gives it back fails the
assertion of `enable_preemption`. Under an outer lock the same pair of calls passes, but
leaves the depth at 0 while the outer lock is held. -/
theorem try_lock_not_counted :
    (∃ s, (lockSystem 0).ReachVia (fun s op => op.Within s) s ∧
      (s.held = [0] ∧ s.spinning = [] ∧ s.depth 0 = 0) ∧
      unlock s.kernel 0 0 = .error .preemptNotDisabled) ∧
    ∃ s, (lockSystem 0).ReachVia (fun s op => op.Within s) s ∧
      (s.held = [1] ∧ s.spinning = [] ∧ s.depth 0 = 0) := by
  constructor
  · have hrun : (lockSystem 0).runsTo (fun s op => op.Within s)
        (fun s => s.held = [0] ∧ s.spinning = [] ∧ s.depth 0 = 0) unlocked [.tryLock 0] =
        true := by
      decide
    obtain ⟨s, hreach, h⟩ := unlocked_reached.runsTo hrun
    refine ⟨s, hreach, h, ?_⟩
    rw [unlock, Scheduler.enablePreemption]
    have hzero : (s.kernel.schedulers 0).preemptDisableDepth = 0 := h.2.2
    simp only [hzero]
    rfl
  · have hrun : (lockSystem 0).runsTo (fun s op => op.Within s)
        (fun s => s.held = [1] ∧ s.spinning = [] ∧ s.depth 0 = 0) unlocked
        [.lock 1, .spin 1, .tryLock 0, .unlock 0] = true := by
      decide
    exact unlocked_reached.runsTo hrun

end Cortos.Locks
