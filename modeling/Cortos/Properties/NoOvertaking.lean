import Mathlib.Data.Nat.Count
import Cortos.Machine.Effects
import Cortos.Machine.Observation

/-!
# No thread is overtaken in its ready queue

A thread that has been made ready waits in the queue of its core and priority until its core
dispatches it. `enqueue_thread` appends, `pop_best_thread` takes the head of the first queue
that is not empty, and the outgoing thread of `reschedule` goes to the back.

- `Machine.dispatches`: the thread that a core dispatches in a step.
- `QueueMove`: what a step does to one queue. Threads arrive at the back, and it loses its
  head exactly when that is dispatched.
- `no_overtaking`: while a thread waits, its core dispatches nobody less urgent, and each
  dispatch of a thread of its own priority brings it one place forward. So it is
  dispatched after as many of them as were ahead of it.

This holds on any number of cores, whatever the threads do.
-/

namespace Cortos

open Lib

variable {cfg : Config} {m m' : Machine} {a a' : Life} {l : Label} {c d p : Nat}
  {t x u : ThreadRef}

/-! ## What a step does to a queue -/

/-- The thread that core `c` dispatches in this step, in `Scheduler::start` or in
`Scheduler::reschedule`. -/
def Machine.dispatches (m : Machine) (l : Label) (m' : Machine) (c : Nat) : Option ThreadRef :=
  match l with
  | .core d (.next _) =>
    if d = c ∧ (m.core c = .boot ∨ m.core c = .switch) then m'.kernel.current c else none
  | _ => none

theorem Machine.dispatches_of_ne {act : Act} (hd : d ≠ c) :
    m.dispatches (.core d act) m' c = none := by
  cases act with
  | next b => exact if_neg fun h => hd h.1
  | _ => rfl

theorem Machine.dispatches_of_core {act : Act} (hboot : m.core d ≠ .boot)
    (hswitch : m.core d ≠ .switch) : m.dispatches (.core d act) m' c = none := by
  cases act with
  | next b =>
    refine if_neg ?_
    rintro ⟨rfl, h | h⟩
    · exact hboot h
    · exact hswitch h
  | _ => rfl

/-- What a step does to a queue of core `c` and priority `p`. -/
inductive QueueMove (m : Machine) (l : Label) (m' : Machine) (c p : Nat)
    (q q' : List ThreadRef) : Prop
  | arrive (back : List ThreadRef) (hnone : m.dispatches l m' c = none) (hq : q' = q ++ back)
  /-- A thread of this priority is dispatched. -/
  | turn (back : List ThreadRef) {y : ThreadRef} (hy : m.dispatches l m' c = some y)
    (hprio : m.kernel.priority y = p) (hq : q ++ back = y :: q') (hnot : y ∉ q')
  /-- A more urgent thread is dispatched. -/
  | urgent (back : List ThreadRef) {y : ThreadRef} (hy : m.dispatches l m' c = some y)
    (hprio : m.kernel.priority y < p) (hq : q' = q ++ back)
  /-- No thread of this priority is ready. -/
  | empty {y : ThreadRef} (hy : m.dispatches l m' c = some y) (hq : q' = [])

/-- Threads arrive at the back. -/
theorem Life.enqueue_queue (a : Life) (c e : Nat) (x : ThreadRef) (d p : Nat) :
    ∃ back, (a.enqueue c e x).queue (d, p) = a.queue (d, p) ++ back := by
  by_cases hd : (d, p) = (c, e)
  · rw [hd]
    exact ⟨[x], Function.update_self ..⟩
  · exact ⟨[], (Function.update_of_ne hd _ _).trans (List.append_nil _).symm⟩

theorem Life.rotated_queue (a : Life) (c e : Nat) (x : ThreadRef) (d p : Nat) :
    ∃ back, (a.rotated c e x).queue (d, p) = a.queue (d, p) ++ back := by
  rw [Life.rotated]
  split
  · split
    · exact ⟨[], (List.append_nil _).symm⟩
    · exact a.enqueue_queue c e x d p
  · exact ⟨[], (List.append_nil _).symm⟩

/-- A core dispatches the head of its first queue that is not empty. -/
theorem Life.Selects.queueMove {b : Life} {y : ThreadRef} {back : List ThreadRef}
    {q : List ThreadRef} (hsel : b.Selects c y a') (hy : m.dispatches l m' c = some y)
    (hq : b.queue (c, p) = q ++ back)
    (hprio : ∀ e, y ∈ b.queue (c, e) → m.kernel.priority y = e)
    (hsim : Sim cfg m' a') :
    QueueMove m l m' c p q (a'.queue (c, p)) := by
  cases hsel with
  | idle hempty => exact .empty hy (hempty p)
  | @head e y rest hhead hfirst =>
    have hmem : y ∈ b.queue (c, e) := hhead ▸ List.mem_cons_self
    rcases Nat.lt_trichotomy e p with hlt | rfl | hgt
    · refine .urgent back hy (hprio e hmem ▸ hlt) ?_
      have hne : (c, p) ≠ (c, e) := fun heq => hlt.ne' (congrArg Prod.snd heq)
      exact (Function.update_of_ne hne _ _).trans hq
    · refine .turn back hy (hprio e hmem) ?_ fun hqueued => ?_
      · show q ++ back = y :: Function.update b.queue (c, e) rest (c, e)
        rw [Function.update_self, ← hhead, hq]
      · -- it is Running now
        have hready := ((hsim.queued _ _ _).mp hqueued).1
        rw [show (b.dequeue c e y rest).phase y = .running from Function.update_self ..] at hready
        cases hready
    · refine .empty hy ?_
      have hne : (c, p) ≠ (c, e) := fun heq => hgt.ne (congrArg Prod.snd heq)
      exact (Function.update_of_ne hne _ _).trans (hfirst p hgt)

/-- **Step lemma.** -/
theorem Trans.queueMove (ht : Trans cfg m a l m' a') (h : Sim cfg m a) (c p : Nat) :
    QueueMove m l m' c p (a.queue (c, p)) (a'.queue (c, p)) := by
  have hsame : m.dispatches l m' c = none → a'.queue (c, p) = a.queue (c, p) →
      QueueMove m l m' c p (a.queue (c, p)) (a'.queue (c, p)) := fun hnone hq =>
    .arrive [] hnone (hq.trans (List.append_nil _).symm)
  have hthread : ∀ {d act}, m.core d = .thread → m.dispatches (.core d act) m' c = none :=
    fun hcore => Machine.dispatches_of_core (by simp [hcore]) (by simp [hcore])
  cases ht with
  | constructBoot =>
    obtain ⟨back, hq⟩ := a.enqueue_queue _ _ _ c p
    exact .arrive back rfl hq
  | start => exact hsame rfl rfl
  | thread hcore | construct hcore | block hcore | ret hcore | terminate hcore | win hcore
  | tearDown hcore | post hcore => exact hsame (hthread hcore) rfl
  | ready hcore =>
    obtain ⟨back, hq⟩ := a.enqueue_queue _ _ _ c p
    exact .arrive back (hthread hcore) hq
  | coreMove hmove => exact hsame (Machine.dispatches_of_core hmove.core.1 hmove.ne_switch) rfl
  | drainOne hcore =>
    obtain ⟨back, hq⟩ := a.enqueue_queue _ _ _ c p
    exact .arrive back (Machine.dispatches_of_core (by simp [hcore]) (by simp [hcore])) hq
  | @boot d b next k a' hrun hd hcore hpop hsel hsim =>
    by_cases hdc : d = c
    · subst hdc
      refine hsel.queueMove ?_ (List.append_nil _).symm
        (fun e hmem => ((h.queued _ _ _).mp hmem).2.2.2) hsim
      show (if _ then _ else _) = _
      rw [if_pos ⟨rfl, .inl hcore⟩]
      exact (Kernel.current_dispatch k d d next).trans (if_pos rfl)
    · exact hsame (Machine.dispatches_of_ne hdc) (hsel.queue_of_ne (Ne.symm hdc))
  | @switch d t next b k a' hd hcore hcur hnr hpop hsel hsim =>
    by_cases hdc : d = c
    · subst hdc
      obtain ⟨back, hq⟩ := a.rotated_queue d (m.kernel.priority t) t d p
      have hrot := (h.rotate hcore hcur).1
      refine hsel.queueMove ?_ hq (fun e hmem => ?_) hsim
      · show (if _ then _ else _) = _
        rw [if_pos ⟨rfl, .inr hcore⟩]
        exact (Kernel.current_dispatch k d d next).trans (if_pos rfl)
      · have hprio := ((hrot.queued _ _ _).mp hmem).2.2.2
        exact (congrArg Prod.fst (Kernel.fixed_rotated _ d t next)).symm.trans hprio
    · refine hsame (Machine.dispatches_of_ne hdc) ?_
      rw [hsel.queue_of_ne (Ne.symm hdc), Life.rotated_queue_of_ne (Ne.symm hdc)]

/-! ## The place of a thread -/

/-- Core `c` dispatches a thread of priority `p` in this step. -/
def Machine.turn (m : Machine) (l : Label) (m' : Machine) (c p : Nat) : Bool :=
  (m.dispatches l m' c).any fun y => m.kernel.priority y = p

/-- A thread that stays in its queue moves forward by the dispatches of its own priority. -/
theorem QueueMove.place {q q' : List ThreadRef} (h : QueueMove m l m' c p q q') (ht : t ∈ q)
    (ht' : t ∈ q') :
    q'.idxOf t + (if m.turn l m' c p then 1 else 0) = q.idxOf t ∧
      ∀ y, m.dispatches l m' c = some y → m.kernel.priority y ≤ p := by
  cases h with
  | arrive back hnone hq =>
    subst hq
    rw [Machine.turn, hnone, List.idxOf_append_of_mem ht]
    refine ⟨rfl, fun y hy => ?_⟩
    cases hy
  | @turn back z hz hprio hq hnot =>
    have hne : z ≠ t := by
      rintro rfl
      exact hnot ht'
    constructor
    · calc q'.idxOf t + (if m.turn l m' c p then 1 else 0)
          = q'.idxOf t + 1 := by rw [Machine.turn, hz, Option.any_some, if_pos (by simpa using hprio)]
        _ = (z :: q').idxOf t := (List.idxOf_cons_ne q' hne).symm
        _ = q.idxOf t := by rw [← hq, List.idxOf_append_of_mem ht]
    · intro y hy
      rw [hz] at hy
      cases hy
      exact Nat.le_of_eq hprio
  | @urgent back z hz hprio hq =>
    subst hq
    constructor
    · rw [Machine.turn, hz, Option.any_some, if_neg (by simpa using hprio.ne),
        List.idxOf_append_of_mem ht, Nat.add_zero]
    · intro y hy
      rw [hz] at hy
      cases hy
      exact Nat.le_of_lt hprio
  | empty hy hq =>
    subst hq
    cases ht'

/-! ## Runs -/

section Runs

variable {N : Nat} (r : (system cfg).Run N)

/-- How often core `c` has dispatched a thread of priority `p` in the first `n` steps. -/
def turns (c p n : Nat) : Nat :=
  Nat.count (fun k => (r.state k).turn (r.label k) (r.state (k + 1)) c p = true) n

/-- How many threads are ahead of `t` in its queue after `n` steps. -/
def place (t : ThreadRef) (c p n : Nat) : Nat :=
  ((r.state n).kernel.readyQueue c p).idxOf t

/-- **Step law of the queue**, between two states of a run. -/
theorem place_step (hr : ∀ i < N, (r.label i).Valid cfg) {k : Nat} (hk : k < N)
    (ht : t ∈ (r.state k).kernel.readyQueue c p)
    (ht' : t ∈ (r.state (k + 1)).kernel.readyQueue c p) :
    place r t c p (k + 1) + turns r c p (k + 1) = place r t c p k + turns r c p k ∧
      ∀ y, (r.state k).dispatches (r.label k) (r.state (k + 1)) c = some y →
        (r.state k).kernel.priority y ≤ p := by
  have hreach : Reachable cfg (r.state k) := r.reachVia hr k (Nat.le_of_lt hk)
  obtain ⟨a, hsim⟩ := hreach.sim
  obtain ⟨a', htrans⟩ := hsim.trans (hr k hk) (r.next k hk)
  have hplace : ∀ {n b}, Sim cfg (r.state n) b → place r t c p n = (b.queue (c, p)).idxOf t :=
    fun hb => by rw [place, hb.readyQueue_eq]
  rw [hsim.readyQueue_eq] at ht
  rw [(htrans.sim hsim).readyQueue_eq] at ht'
  obtain ⟨hmoves, hurgent⟩ := (htrans.queueMove hsim c p).place ht ht'
  refine ⟨?_, hurgent⟩
  rw [hplace (htrans.sim hsim), hplace hsim, turns, turns, Nat.count_succ]
  omega

/-- **No thread is overtaken.** While a thread waits in its ready queue, its core dispatches no
less urgent thread, and its place goes down by one with each dispatch of its own priority. -/
theorem no_overtaking (hr : ∀ i < N, (r.label i).Valid cfg) {i j : Nat} (hij : i ≤ j) (hj : j ≤ N)
    (hwait : ∀ k, i ≤ k → k ≤ j → t ∈ (r.state k).kernel.readyQueue c p) :
    place r t c p j + turns r c p j = place r t c p i + turns r c p i ∧
      ∀ k, i ≤ k → k < j → ∀ y,
        (r.state k).dispatches (r.label k) (r.state (k + 1)) c = some y →
          (r.state k).kernel.priority y ≤ p := by
  induction j, hij using Nat.le_induction with
  | base => exact ⟨rfl, fun k hik hki => absurd hki (Nat.not_lt.mpr hik)⟩
  | succ j hij ih =>
    obtain ⟨hplace, hurgent⟩ := ih (Nat.le_of_succ_le hj) fun k hik hkj =>
      hwait k hik (Nat.le_succ_of_le hkj)
    obtain ⟨hstep, hlast⟩ := place_step r hr hj (hwait j hij (Nat.le_succ j))
      (hwait (j + 1) (Nat.le_succ_of_le hij) (Nat.le_refl _))
    refine ⟨hstep.trans hplace, fun k hik hkj => ?_⟩
    rcases Nat.lt_succ_iff_lt_or_eq.mp hkj with hlt | rfl
    · exact hurgent k hik hlt
    · exact hlast

end Runs

/-- Three threads of one priority on one core; the first one yields. -/
def yieldToPeers : (system oneCore).Run 10 :=
  .ofLabels (Machine.initial oneCore)
    ([.construct 5 1#32, .construct 5 1#32, .construct 5 1#32, .start] ++ steps 0 1 ++
      [.core 0 .yield] ++ steps 0 4)
    .start (by exact system_init oneCore) (by decide +kernel)

/-- The last of them moves up when the second is dispatched, and the first is behind it. -/
theorem yieldToPeers_places :
    (place yieldToPeers (.user 2) 0 5 5 = 1 ∧ place yieldToPeers (.user 2) 0 5 10 = 0) ∧
      place yieldToPeers (.user 2) 0 5 10 + turns yieldToPeers 0 5 10 =
        place yieldToPeers (.user 2) 0 5 5 + turns yieldToPeers 0 5 5 :=
  ⟨by decide +kernel, (no_overtaking yieldToPeers (by decide +kernel) (by decide) (by decide)
    (i := 5) (j := 10) (by decide +kernel)).1⟩

end Cortos
