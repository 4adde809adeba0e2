import Mathlib.Algebra.Order.Ring.Nat
import Mathlib.Logic.Basic

/-!
# Labelled transition systems whose steps may fault

A program that runs in small steps is a state type, a label type (who moves and
which choice is taken) and a partial step function: a step either produces the
next state or faults (an assertion of the program fails, or the label is not
enabled). A fault ends the run, so reachability only follows successful steps.

- `Lts.ReachVia C`: the states reached by steps that all meet the side condition
  `C`: what "in every run whose steps all meet the condition" means.
- `Lts.ReachVia.invariant`: the invariant rule. It is the only induction over
  runs that a safety proof needs.
- `Lts.runsTo`: running a list of labels, for concrete runs.
- `Lts.Run`: a run with its intermediate states, for properties that relate two
  instants of one run; `Lts.Run.ofLabels` is the run of a list of labels.
-/

namespace Cortos.Lib

universe u v w

/-- A labelled transition system with faulting steps. -/
structure Lts (σ : Type u) (ℓ : Type v) (ε : Type w) where
  /-- The initial states. -/
  init : σ → Prop
  /-- One step under a label: the next state, or the fault that ends the run. -/
  step : σ → ℓ → Except ε σ

namespace Lts

variable {σ : Type u} {ℓ : Type v} {ε : Type w} (M : Lts σ ℓ ε)

/-! ## Reachability and the invariant rule -/

/-- The states reached from an initial one by steps that all meet `C`. -/
inductive ReachVia (C : σ → ℓ → Prop) : σ → Prop where
  | init {s : σ} (h : M.init s) : ReachVia C s
  | step {s s' : σ} {l : ℓ} (hs : ReachVia C s) (hc : C s l)
      (h : M.step s l = .ok s') : ReachVia C s'

variable {M}

/-- **Invariant rule**: what holds initially and is kept by every step that
meets the condition holds in every state reached. The step may use that its
source state is reached. -/
theorem ReachVia.invariant {C : σ → ℓ → Prop} {I : σ → Prop}
    (hinit : ∀ s, M.init s → I s)
    (hstep : ∀ s l s', M.ReachVia C s → I s → C s l → M.step s l = .ok s' → I s')
    {s : σ} (h : M.ReachVia C s) : I s := by
  induction h with
  | init h => exact hinit _ h
  | step hs hc hstep' ih => exact hstep _ _ _ hs ih hc hstep'

/-- What the steps from the states reached under `C` all meet may be assumed of them. -/
theorem ReachVia.strengthen {C D : σ → ℓ → Prop}
    (hCD : ∀ s l, M.ReachVia C s → C s l → D s l) {s : σ} (h : M.ReachVia C s) :
    M.ReachVia D s := by
  induction h with
  | init h => exact .init h
  | step hs hc hstep ih => exact .step ih (hCD _ _ hs hc) hstep

/-- Strengthening the side condition reaches fewer states. -/
theorem ReachVia.mono {C D : σ → ℓ → Prop} (hCD : ∀ s l, C s l → D s l) {s : σ}
    (h : M.ReachVia C s) : M.ReachVia D s :=
  h.strengthen fun s l _ => hCD s l

/-! ## Concrete runs -/

/-- Run the labels from `s`; every step meets `C` and succeeds, and the state
reached meets `P`. -/
def runsTo (M : Lts σ ℓ ε) (C : σ → ℓ → Prop) (P : σ → Prop) [∀ s l, Decidable (C s l)]
    [DecidablePred P] : σ → List ℓ → Bool
  | s, [] => decide (P s)
  | s, l :: ls => decide (C s l) &&
    match M.step s l with
    | .ok s' => M.runsTo C P s' ls
    | .error _ => false

/-- A run that has been executed reaches its last state. -/
theorem ReachVia.runsTo {C : σ → ℓ → Prop} {P : σ → Prop} [∀ s l, Decidable (C s l)]
    [DecidablePred P] {ls : List ℓ} :
    ∀ {s : σ}, M.ReachVia C s → M.runsTo C P s ls = true → ∃ s', M.ReachVia C s' ∧ P s' := by
  induction ls with
  | nil => exact fun hs h => ⟨_, hs, of_decide_eq_true h⟩
  | cons l ls ih =>
    intro s hs h
    rw [Lts.runsTo, Bool.and_eq_true] at h
    obtain ⟨hc, h⟩ := h
    cases hstep : M.step s l with
    | ok s' =>
      rw [hstep] at h
      exact ih (hs.step (of_decide_eq_true hc) hstep) h
    | error e =>
      rw [hstep] at h
      cases h

/-! ## Runs with their intermediate states -/

/-- A run of `n` steps: its states, its labels, and that each step is one of
the system. -/
structure Run (M : Lts σ ℓ ε) (n : Nat) where
  state : Nat → σ
  label : Nat → ℓ
  start : M.init (state 0)
  next : ∀ i < n, M.step (state i) (label i) = .ok (state (i + 1))

/-- The states of a run are reached under any condition its steps meet. -/
theorem Run.reachVia {n : Nat} (r : M.Run n) {C : σ → ℓ → Prop}
    (hC : ∀ i < n, C (r.state i) (r.label i)) :
    ∀ i ≤ n, M.ReachVia C (r.state i)
  | 0, _ => .init r.start
  | i + 1, hi => (r.reachVia hC i (by omega)).step (hC i (by omega)) (r.next i (by omega))

/-- The first `m` steps of a run. -/
def Run.take {n : Nat} (r : M.Run n) {m : Nat} (hm : m ≤ n) : M.Run m where
  state := r.state
  label := r.label
  start := r.start
  next i hi := r.next i (Nat.lt_of_lt_of_le hi hm)

/-- A run with one more step. -/
def Run.snoc {n : Nat} (r : M.Run n) {l : ℓ} {s' : σ} (h : M.step (r.state n) l = .ok s') :
    M.Run (n + 1) where
  state i := if i ≤ n then r.state i else s'
  label i := if i < n then r.label i else l
  start := r.start
  next i hi := by
    rw [if_pos (Nat.le_of_lt_succ hi)]
    rcases Nat.lt_succ_iff_lt_or_eq.mp hi with hi | rfl
    · rw [if_pos hi, if_pos (Nat.succ_le_of_lt hi)]
      exact r.next i hi
    · rw [if_neg (Nat.lt_irrefl i), if_neg (Nat.not_succ_le_self i)]
      exact h

section Snoc

variable {n : Nat} {r : M.Run n} {l : ℓ} {s' : σ} {h : M.step (r.state n) l = .ok s'}

theorem Run.snoc_state {i : Nat} (hi : i ≤ n) : (r.snoc h).state i = r.state i :=
  if_pos hi

theorem Run.snoc_label : (r.snoc h).label n = l :=
  if_neg (Nat.lt_irrefl n)

theorem Run.snoc_meets {C : σ → ℓ → Prop} (hC : ∀ i < n, C (r.state i) (r.label i))
    (hc : C (r.state n) l) : ∀ i < n + 1, C ((r.snoc h).state i) ((r.snoc h).label i) := by
  intro i hi
  rw [snoc_state (Nat.le_of_lt_succ hi)]
  rcases Nat.lt_succ_iff_lt_or_eq.mp hi with hi | rfl
  · rw [show (r.snoc h).label i = r.label i from if_pos hi]
    exact hC i hi
  · rwa [snoc_label]

end Snoc

/-- Every state reached is the last one of a run. -/
theorem ReachVia.exists_run {C : σ → ℓ → Prop} {s : σ} (h : M.ReachVia C s) (l : ℓ) :
    ∃ n, ∃ r : M.Run n, r.state n = s ∧ ∀ i < n, C (r.state i) (r.label i) := by
  induction h with
  | @init s h =>
    exact ⟨0, ⟨fun _ => s, fun _ => l, h, nofun⟩, rfl, nofun⟩
  | @step s s' l hs hc hstep ih =>
    obtain ⟨n, r, rfl, hC⟩ := ih
    exact ⟨n + 1, r.snoc hstep, if_neg (Nat.not_succ_le_self n), Run.snoc_meets hC hc⟩

/-- A step from a state reached is the last one of a run. -/
theorem ReachVia.exists_step {C : σ → ℓ → Prop} {s s' : σ} {l : ℓ} (h : M.ReachVia C s)
    (hc : C s l) (hstep : M.step s l = .ok s') :
    ∃ n, ∃ r : M.Run (n + 1), r.state n = s ∧ r.label n = l ∧
      ∀ i < n + 1, C (r.state i) (r.label i) := by
  obtain ⟨n, r, rfl, hC⟩ := h.exists_run l
  exact ⟨n, r.snoc hstep, Run.snoc_state (Nat.le_refl n), Run.snoc_label, Run.snoc_meets hC hc⟩

/-- **Stability rule**: what holds at `i` and is kept by every later step of the run holds
from `i` on. -/
theorem Run.stable {n : Nat} (r : M.Run n) {P : σ → Prop} {i : Nat} (h : P (r.state i))
    (hstep : ∀ j, i ≤ j → j < n → P (r.state j) → P (r.state (j + 1))) :
    ∀ j, i ≤ j → j ≤ n → P (r.state j) := by
  intro j hij
  induction hij with
  | refl => exact fun _ => h
  | step hij ih => exact fun hj => hstep _ hij hj (ih (Nat.le_of_lt hj))

/-- The state after the first `n` labels. -/
def after (M : Lts σ ℓ ε) : σ → List ℓ → Nat → σ
  | s, _, 0 => s
  | s, [], _ + 1 => s
  | s, l :: ls, n + 1 =>
    match M.step s l with
    | .ok s' => M.after s' ls n
    | .error _ => s

/-- Labels that have been executed, as a run; `l` stands for the labels past the
end. -/
def Run.ofLabels (s : σ) (ls : List ℓ) (l : ℓ) (hinit : M.init s)
    (hok : M.runsTo (fun _ _ => True) (fun _ => True) s ls = true) : M.Run ls.length where
  state := M.after s ls
  label i := ls.getD i l
  start := by
    cases ls <;> exact hinit
  next i hi := by
    clear hinit
    induction ls generalizing s i with
    | nil => exact absurd hi (Nat.not_lt_zero i)
    | cons k ls ih =>
      rw [Lts.runsTo, Bool.and_eq_true] at hok
      cases hstep : M.step s k with
      | error e =>
        rw [hstep] at hok
        cases hok.2
      | ok s' =>
        rw [hstep] at hok
        cases i with
        | zero =>
          simp only [after, hstep, List.getD_cons_zero]
        | succ i =>
          simp only [after, hstep, List.getD_cons_succ]
          exact ih s' hok.2 i (Nat.lt_of_succ_lt_succ hi)

end Lts

end Cortos.Lib
