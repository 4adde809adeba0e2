import Mathlib.Algebra.Order.Ring.Nat
import Mathlib.Algebra.BigOperators.Group.Finset.Basic

/-!
# Round robin within priorities

A job is an element and a number `n`: it takes `n + 1` turns. A queue of jobs is served
by taking its head, which has one turn and goes to the back of the queue unless that
was its last. Queues of several priorities are served from the first that is not empty.

- `Served.rounds`: the turns of one queue go round by round. In round `k` all jobs with
  `k ≤ n` have a turn, in the order of the queue.
- `ServedByPriority.levels`: if nothing arrives, the queues are served one after the
  other.
-/

namespace Cortos.Lib

universe u

variable {α : Type u}

/-! ## One queue -/

/-- The turns of a queue of jobs. -/
inductive Served : List (α × Nat) → List α → Prop
  | nil : Served [] []
  | last {x : α} {q : List (α × Nat)} {xs : List α} (h : Served q xs) :
    Served ((x, 0) :: q) (x :: xs)
  | again {x : α} {n : Nat} {q : List (α × Nat)} {xs : List α} (h : Served (q ++ [(x, n)]) xs) :
    Served ((x, n + 1) :: q) (x :: xs)

/-- What a round leaves in the queue. -/
def requeued : List (α × Nat) → List (α × Nat)
  | [] => []
  | (_, 0) :: q => requeued q
  | (x, n + 1) :: q => (x, n) :: requeued q

/-- All jobs that are in the queue have a turn before one has a second. -/
theorem Served.round {xs : List α} (q acc : List (α × Nat)) (h : Served (acc ++ requeued q) xs) :
    Served (q ++ acc) (q.map Prod.fst ++ xs) := by
  induction q generalizing acc with
  | nil =>
    rw [requeued, List.append_nil] at h
    exact h
  | cons j q ih =>
    obtain ⟨x, n⟩ := j
    cases n with
    | zero => exact .last (ih acc h)
    | succ n =>
      have hrest := ih (acc ++ [(x, n)]) (by rwa [List.append_assoc])
      rw [← List.append_assoc] at hrest
      exact .again hrest

/-- The first `N` rounds of a queue. -/
def rounds (q : List (α × Nat)) (N : Nat) : List α :=
  (List.range N).flatMap fun k => (q.filter fun j => k ≤ j.2).map Prod.fst

/-- The jobs of a later round. -/
theorem map_filter_requeued (q : List (α × Nat)) (k : Nat) :
    ((requeued q).filter fun j => k ≤ j.2).map Prod.fst =
      (q.filter fun j => k + 1 ≤ j.2).map Prod.fst := by
  induction q with
  | nil => rfl
  | cons j q ih =>
    obtain ⟨x, n⟩ := j
    cases n with
    | zero =>
      rw [requeued, ih, List.filter_cons_of_neg (by simp)]
    | succ n =>
      rw [requeued]
      by_cases hk : k ≤ n
      · rw [List.filter_cons_of_pos (by simpa using hk),
          List.filter_cons_of_pos (by simpa using hk), List.map_cons, List.map_cons, ih]
      · rw [List.filter_cons_of_neg (by simpa using hk),
          List.filter_cons_of_neg (by simpa using hk), ih]

theorem rounds_succ (q : List (α × Nat)) (N : Nat) :
    rounds q (N + 1) = q.map Prod.fst ++ rounds (requeued q) N := by
  rw [rounds, List.range_succ_eq_map, List.flatMap_cons, List.flatMap_map, rounds]
  congr 1
  · rw [List.filter_eq_self.mpr fun j _ => by simp]
  · refine List.flatMap_congr fun k _ => ?_
    exact (map_filter_requeued q k).symm

theorem mem_requeued {q : List (α × Nat)} {j : α × Nat} (h : j ∈ requeued q) :
    (j.1, j.2 + 1) ∈ q := by
  induction q with
  | nil => cases h
  | cons i q ih =>
    obtain ⟨x, n⟩ := i
    cases n with
    | zero => exact List.mem_cons_of_mem _ (ih h)
    | succ n =>
      rcases List.mem_cons.mp h with rfl | h
      · exact List.mem_cons_self
      · exact List.mem_cons_of_mem _ (ih h)

/-- **The turns of a queue go round by round.** -/
theorem Served.rounds {q : List (α × Nat)} {N : Nat} (hN : ∀ j ∈ q, j.2 < N) :
    Served q (rounds q N) := by
  induction N generalizing q with
  | zero =>
    obtain rfl : q = [] := List.eq_nil_iff_forall_not_mem.mpr fun j hj => by
      exact absurd (hN j hj) (Nat.not_lt_zero _)
    exact .nil
  | succ N ih =>
    have hrest := ih fun j hj => Nat.lt_of_succ_lt_succ (hN _ (mem_requeued hj))
    rw [rounds_succ]
    have := Served.round q [] hrest
    rwa [List.append_nil] at this

/-! ## Several priorities -/

/-- The turns of queues by priority, with the number of jobs that are in them. -/
inductive ServedByPriority : (Nat → List (α × Nat)) → Nat → List α → Prop
  | done {Q : Nat → List (α × Nat)} (h : ∀ p, Q p = []) : ServedByPriority Q 0 []
  | last {Q : Nat → List (α × Nat)} {p n : Nat} {x : α} {q : List (α × Nat)} {xs : List α}
    (hfirst : ∀ p' < p, Q p' = []) (hq : Q p = (x, 0) :: q)
    (h : ServedByPriority (Function.update Q p q) n xs) : ServedByPriority Q (n + 1) (x :: xs)
  | again {Q : Nat → List (α × Nat)} {p n k : Nat} {x : α} {q : List (α × Nat)} {xs : List α}
    (hfirst : ∀ p' < p, Q p' = []) (hq : Q p = (x, k + 1) :: q)
    (h : ServedByPriority (Function.update Q p (q ++ [(x, k)])) (n + 1) xs) :
    ServedByPriority Q (n + 1) (x :: xs)

/-- The first queue that is not empty is served to its end. -/
theorem ServedByPriority.level {q : List (α × Nat)} {xs ys : List α} (hq : Served q xs)
    {Q : Nat → List (α × Nat)} {p n : Nat} (hfirst : ∀ p' < p, Q p' = []) (hQ : Q p = q)
    (hrest : ServedByPriority (Function.update Q p []) n ys) :
    ServedByPriority Q (q.length + n) (xs ++ ys) := by
  have hbelow : ∀ q', ∀ p' < p, Function.update Q p q' p' = [] := fun q' p' hp => by
    rw [Function.update_of_ne (Nat.ne_of_lt hp), hfirst p' hp]
  induction hq generalizing Q with
  | nil =>
    rw [List.length_nil, Nat.zero_add, List.nil_append]
    rwa [← hQ, Function.update_eq_self] at hrest
  | @last x q xs h ih =>
    rw [List.length_cons, Nat.add_right_comm]
    refine .last hfirst hQ (ih (hbelow q) (Function.update_self ..) ?_ fun q' => ?_)
    · rwa [Function.update_idem]
    · rw [Function.update_idem]
      exact hbelow q'
  | @again x k q xs h ih =>
    have hnext := ih (hbelow (q ++ [(x, k)])) (Function.update_self ..)
      (by rwa [Function.update_idem]) fun q' => by
        rw [Function.update_idem]
        exact hbelow q'
    rw [List.length_append, List.length_singleton, Nat.add_right_comm] at hnext
    rw [List.length_cons, Nat.add_right_comm]
    exact .again hfirst hQ hnext

/-- **The queues are served one after the other.** -/
theorem ServedByPriority.levels {turns : Nat → List α} {d : Nat} :
    ∀ {Q : Nat → List (α × Nat)} {p : Nat}, (∀ p' < p, Q p' = []) →
      (∀ p', p + d ≤ p' → Q p' = []) → (∀ p', p ≤ p' → Served (Q p') (turns p')) →
      ServedByPriority Q ((List.range' p d).map fun p' => (Q p').length).sum
        ((List.range' p d).flatMap turns) := by
  induction d with
  | zero =>
    intro Q p hbelow habove _
    refine .done fun p' => ?_
    rcases Nat.lt_or_ge p' p with hp | hp
    · exact hbelow p' hp
    · exact habove p' hp
  | succ d ih =>
    intro Q p hbelow habove hserved
    have hother : ∀ p', p + 1 ≤ p' → Function.update Q p [] p' = Q p' := fun p' hp =>
      Function.update_of_ne (Nat.ne_of_gt hp) _ _
    have hrest := ih (Q := Function.update Q p []) (p := p + 1) (fun p' hp => ?_) (fun p' hp => ?_)
      fun p' hp => ?_
    · rw [List.range'_succ, List.map_cons, List.sum_cons, List.flatMap_cons]
      refine .level (hserved p (Nat.le_refl p)) hbelow rfl ?_
      rwa [List.map_congr_left fun p' hp => ?_] at hrest
      rw [hother p' (List.mem_range'_1.mp hp).1]
    · rcases Nat.lt_or_eq_of_le (Nat.le_of_lt_succ hp) with hlt | rfl
      · rw [Function.update_of_ne (Nat.ne_of_lt hlt), hbelow p' hlt]
      · exact Function.update_self ..
    · rw [hother p' (by omega), habove p' (by omega)]
    · rw [hother p' hp]
      exact hserved p' (by omega)

/-- Every element is in one of the queues. -/
theorem sum_length_filter {l : List α} {f : α → Nat} {d : Nat} (h : ∀ x ∈ l, f x < d) :
    ((List.range d).map fun p => (l.filter fun x => f x = p).length).sum = l.length := by
  have hcount : ∀ p, (l.filter fun x => f x = p).length =
      Multiset.count p (l.map f : Multiset Nat) := fun p => by
    rw [Multiset.coe_count, List.count, List.countP_map, List.countP_eq_length_filter]
    rfl
  have hsum := Multiset.sum_count_eq_card (s := (List.range d).toFinset) (m := l.map f)
    (by simpa using h)
  rw [List.sum_toFinset _ List.nodup_range] at hsum
  rw [List.map_congr_left fun p _ => hcount p]
  exact hsum.trans (List.length_map f)

end Cortos.Lib
