import Cortos.Kernel.Scheduling

/-!
# The ready matrix is a map from priorities to FIFO lists

`PlainMatrix` is the ready matrix without pointers and without a bitmap: a list of
threads for each core and priority. Operations on it and on the kernel run side by
side, while the rest of the kernel writes thread control blocks in between.

- `MatrixRep.step`: an operation within its contract passes its assertions, returns
  what the operation on lists returns and keeps the representation.
- `ready_matrix_is_fifo`: so does every sequence of them, from empty queues on.
-/

namespace Cortos

open Lib

/-- An operation on the ready matrices, or a write to the thread control blocks
(which the links are not part of) by the rest of the kernel. -/
inductive MatrixOp where
  | enqueue (core : Nat) (t : ThreadRef)
  | pop (core : Nat)
  | remove (core : Nat) (t : ThreadRef)
  | write (tcbs : ThreadRef → Tcb)

/-- The operation on the pointers and bitmaps, with the thread it returns. -/
def Kernel.matrixStep (cfg : Config) (k : Kernel) :
    MatrixOp → Except Panic (Option ThreadRef × Kernel)
  | .enqueue c t => (k.enqueueThread cfg c t).map fun k' => (none, k')
  | .pop c => .ok (k.popBestThread c)
  | .remove c t => (k.removeThread c t).map fun k' => (none, k')
  | .write tcbs => .ok (none, { k with tcbs })

def Kernel.matrixRun (cfg : Config) :
    Kernel → List MatrixOp → Except Panic (List (Option ThreadRef) × Kernel)
  | k, [] => .ok ([], k)
  | k, op :: ops => do
    let (result, k) ← k.matrixStep cfg op
    let (results, k) ← k.matrixRun cfg ops
    return (result :: results, k)

/-! ## Plain lists -/

/-- The threads of each core and priority, in the order in which they were
enqueued. -/
structure PlainMatrix where
  tcbs : ThreadRef → Tcb
  lists : Nat × Nat → List ThreadRef

namespace PlainMatrix

def priority (s : PlainMatrix) (t : ThreadRef) : Nat := (s.tcbs t).effectivePriority

/-- The numerically smallest priority with a thread on core `c`. -/
def best (cfg : Config) (s : PlainMatrix) (c : Nat) : Option Nat :=
  (List.range cfg.maxPriorities).find? fun p => !(s.lists (c, p)).isEmpty

def setList (s : PlainMatrix) (c p : Nat) (ts : List ThreadRef) : PlainMatrix :=
  { s with lists := Function.update s.lists (c, p) ts }

/-- The operation on the lists. -/
def step (cfg : Config) (s : PlainMatrix) : MatrixOp → Option ThreadRef × PlainMatrix
  | .enqueue c t => (none, s.setList c (s.priority t) (s.lists (c, s.priority t) ++ [t]))
  | .pop c =>
    match s.best cfg c with
    | none => (none, s)
    | some p => ((s.lists (c, p)).head?, s.setList c p (s.lists (c, p)).tail)
  | .remove c t => (none, s.setList c (s.priority t) ((s.lists (c, s.priority t)).erase t))
  | .write tcbs => (none, { s with tcbs })

def run (cfg : Config) : PlainMatrix → List MatrixOp → List (Option ThreadRef) × PlainMatrix
  | s, [] => ([], s)
  | s, op :: ops =>
    let (result, s) := s.step cfg op
    let (results, s) := s.run cfg ops
    (result :: results, s)

/-- The contract of an operation. A thread is removed from the list it is in: its
priority is the one it was enqueued with. -/
def Admits (cfg : Config) (s : PlainMatrix) : MatrixOp → Prop
  | .enqueue _ t =>
    (∀ i, t ∉ s.lists i) ∧ (s.tcbs t).state = .ready ∧ s.priority t < cfg.maxPriorities
  | .remove c t => t ∈ s.lists (c, s.priority t)
  | .pop _ | .write _ => True

/-- Every operation is made within its contract. -/
def AdmitsAll (cfg : Config) : PlainMatrix → List MatrixOp → Prop
  | _, [] => True
  | s, op :: ops => s.Admits cfg op ∧ AdmitsAll cfg (s.step cfg op).2 ops

/-- The thread that an operation moves. -/
def involved (cfg : Config) (s : PlainMatrix) : MatrixOp → Option ThreadRef
  | .enqueue _ t | .remove _ t => some t
  | .pop c => (s.step cfg (.pop c)).1
  | .write _ => none

@[simp] theorem setList_self (s : PlainMatrix) (c p : Nat) (ts : List ThreadRef) :
    (s.setList c p ts).lists (c, p) = ts :=
  Function.update_self ..

theorem setList_of_ne (s : PlainMatrix) {c p : Nat} (ts : List ThreadRef) {i : Nat × Nat}
    (h : i ≠ (c, p)) : (s.setList c p ts).lists i = s.lists i :=
  Function.update_of_ne h ..

/-- No list holds threads of a priority that the matrix does not have. -/
def Bounded (cfg : Config) (s : PlainMatrix) : Prop :=
  ∀ c p, cfg.maxPriorities ≤ p → s.lists (c, p) = []

variable {cfg : Config} {s : PlainMatrix}

theorem best_eq_none (h : s.Bounded cfg) {c : Nat} :
    s.best cfg c = none ↔ ∀ p, s.lists (c, p) = [] := by
  unfold best
  rw [List.find?_eq_none]
  constructor
  · intro hnone p
    rcases Nat.lt_or_ge p cfg.maxPriorities with hlt | hge
    · simpa using hnone p (List.mem_range.mpr hlt)
    · exact h c p hge
  · intro hall p _
    simp [hall p]

theorem best_eq_some (h : s.Bounded cfg) {c p : Nat} :
    s.best cfg c = some p ↔ s.lists (c, p) ≠ [] ∧ ∀ p' < p, s.lists (c, p') = [] := by
  unfold best
  rw [List.find?_range_eq_some]
  constructor
  · rintro ⟨hp, -, hleast⟩
    exact ⟨by simpa using hp, fun p' hlt => by simpa using hleast p' hlt⟩
  · rintro ⟨hp, hleast⟩
    refine ⟨by simpa using hp, List.mem_range.mpr ?_, fun p' hlt => by simp [hleast p' hlt]⟩
    by_contra hge
    exact hp (h c p (by omega))

theorem Bounded.setList (h : s.Bounded cfg) {c p : Nat} (hp : p < cfg.maxPriorities)
    (ts : List ThreadRef) : (s.setList c p ts).Bounded cfg := by
  intro d p' hge
  rw [setList_of_ne s ts (by simp; omega)]
  exact h d p' hge

/-- A thread in some list has a priority that the matrix has. -/
theorem Bounded.lt_of_mem (h : s.Bounded cfg) {c p : Nat} (hne : s.lists (c, p) ≠ []) :
    p < cfg.maxPriorities := by
  by_contra hge
  exact hne (h c p (by omega))

theorem Bounded.step (h : s.Bounded cfg) {op : MatrixOp} (hop : s.Admits cfg op) :
    (s.step cfg op).2.Bounded cfg := by
  cases op with
  | enqueue c t => exact h.setList hop.2.2 _
  | pop c =>
    cases hbest : s.best cfg c with
    | none =>
      simp only [PlainMatrix.step, hbest]
      exact h
    | some p =>
      simp only [PlainMatrix.step, hbest]
      exact h.setList (h.lt_of_mem ((best_eq_some h).mp hbest).1) _
  | remove c t => exact h.setList (h.lt_of_mem (List.ne_nil_of_mem hop)) _
  | write tcbs => exact h

/-! ## What an operation on lists leaves alone -/

/-- Filtering out the thread that is moved, each list stays as it was. -/
theorem filter_step (hnodup : ∀ i, (s.lists i).Nodup) (op : MatrixOp) (i : Nat × Nat) :
    ((s.step cfg op).2.lists i).filter (fun t => some t ≠ s.involved cfg op) =
      (s.lists i).filter (fun t => some t ≠ s.involved cfg op) := by
  cases op with
  | enqueue c t =>
    show ((s.setList c (s.priority t) _).lists i).filter _ = _
    by_cases hi : i = (c, s.priority t)
    · subst hi
      simp [involved, List.filter_append]
    · rw [setList_of_ne s _ hi]
  | pop c =>
    cases hbest : s.best cfg c with
    | none => simp only [step, hbest]
    | some p =>
      simp only [step, involved, hbest]
      by_cases hi : i = (c, p)
      · subst hi
        rw [setList_self]
        cases s.lists (c, p) with
        | nil => rfl
        | cons t rest => simp
      · rw [setList_of_ne s _ hi]
  | remove c t =>
    show ((s.setList c (s.priority t) _).lists i).filter _ = _
    by_cases hi : i = (c, s.priority t)
    · subst hi
      rw [setList_self, (hnodup _).erase_eq_filter, List.filter_filter]
      refine List.filter_congr fun u _ => ?_
      by_cases hu : u = t <;> simp [involved, hu]
    · rw [setList_of_ne s _ hi]
  | write tcbs => rfl

end PlainMatrix

/-! ## The representation -/

/-- The pointers and bitmaps of `k` represent the lists of `s`. -/
structure MatrixRep (cfg : Config) (k : Kernel) (s : PlainMatrix) : Prop where
  tcbs : k.tcbs = s.tcbs
  rep : ReadyRep k s.lists
  bounded : s.Bounded cfg

namespace MatrixRep

variable {cfg : Config} {k : Kernel} {s : PlainMatrix}

theorem priority_eq (h : MatrixRep cfg k s) (t : ThreadRef) : k.priority t = s.priority t := by
  unfold Kernel.priority PlainMatrix.priority
  rw [h.tcbs]

theorem pop (h : MatrixRep cfg k s) (c : Nat) :
    (k.popBestThread c).1 = (s.step cfg (.pop c)).1 ∧
      MatrixRep cfg (k.popBestThread c).2 (s.step cfg (.pop c)).2 := by
  have hbounded : (s.step cfg (.pop c)).2.Bounded cfg := h.bounded.step trivial
  rcases h.rep.popBestThread c with ⟨hpop, hempty⟩ | ⟨p, t, rest, hq, hleast, hpop⟩
  · have hbest : s.best cfg c = none := (PlainMatrix.best_eq_none h.bounded).mpr hempty
    simp only [PlainMatrix.step, hbest] at hbounded ⊢
    rw [hpop]
    exact ⟨rfl, h⟩
  · have hbest : s.best cfg c = some p :=
      (PlainMatrix.best_eq_some h.bounded).mpr ⟨by simp [hq], hleast⟩
    simp only [PlainMatrix.step, hbest, hq] at hbounded ⊢
    rw [hpop]
    exact ⟨rfl, h.tcbs, h.rep.dropReady hq, hbounded⟩

/-- **One operation** within its contract. -/
theorem step (h : MatrixRep cfg k s) {op : MatrixOp} (hop : s.Admits cfg op) :
    ∃ k', k.matrixStep cfg op = .ok ((s.step cfg op).1, k') ∧
      MatrixRep cfg k' (s.step cfg op).2 := by
  have hbounded := h.bounded.step hop
  cases op with
  | enqueue c t =>
    obtain ⟨hfree, hready, hprio⟩ := hop
    have hprio' : k.priority t < cfg.maxPriorities := by rwa [h.priority_eq]
    have hstate : k.state t = .ready := by
      unfold Kernel.state
      rwa [h.tcbs]
    have henq : k.enqueueThread cfg c t = .ok (k.linkReady c t) :=
      Kernel.enqueueThread_ok.mpr ⟨⟨hprio', hstate, h.rep.links.not_isEnqueued hfree⟩, rfl⟩
    refine ⟨k.linkReady c t, ?_, h.tcbs, ?_, hbounded⟩
    · simp only [Kernel.matrixStep, henq]
      rfl
    · have hrep := h.rep.linkReady (c := c) hfree (Nat.lt_of_lt_of_le hprio' cfg.priorities_le)
      rw [h.priority_eq] at hrep
      exact hrep
  | pop c => exact ⟨_, congrArg Except.ok (Prod.ext (h.pop c).1 rfl), (h.pop c).2⟩
  | remove c t =>
    have hmem : t ∈ s.lists (c, k.priority t) := by
      rw [h.priority_eq]
      exact hop
    obtain ⟨k', hremove, htcbs, hrep⟩ := h.rep.removeThread hmem
    rw [h.priority_eq] at hrep
    refine ⟨k', ?_, htcbs.trans h.tcbs, hrep, hbounded⟩
    simp only [Kernel.matrixStep, hremove]
    rfl
  | write tcbs => exact ⟨_, rfl, rfl, h.rep.congr rfl fun _ => rfl, hbounded⟩

/-- **Any sequence of operations** within their contracts. -/
theorem run (h : MatrixRep cfg k s) (ops : List MatrixOp) (hops : s.AdmitsAll cfg ops) :
    ∃ k', k.matrixRun cfg ops = .ok ((s.run cfg ops).1, k') ∧
      MatrixRep cfg k' (s.run cfg ops).2 := by
  induction ops generalizing k s with
  | nil => exact ⟨k, rfl, h⟩
  | cons op ops ih =>
    obtain ⟨k₁, hstep, hrep₁⟩ := h.step hops.1
    obtain ⟨k₂, hrun, hrep₂⟩ := ih hrep₁ hops.2
    refine ⟨k₂, ?_, hrep₂⟩
    simp only [Kernel.matrixRun, hstep, ok_bind, hrun]
    rfl

end MatrixRep

/-- Queues without a thread represent empty lists. -/
theorem MatrixRep.empty {cfg : Config} {k : Kernel} (hlinks : k.ready = Links.empty)
    (hbits : ∀ c, (k.schedulers c).bitmap = 0#32) : MatrixRep cfg k ⟨k.tcbs, fun _ => []⟩ where
  tcbs := rfl
  rep := ⟨hlinks ▸ Links.Rep.empty, fun c p => by simp [hbits c]⟩
  bounded _ _ _ := rfl

/-- **The ready matrix is a map from priorities to FIFO lists**, on every core and for
every sequence of operations within their contracts, from empty queues on: no
assertion fails; the operations return what the operations on lists return; the
bits, the links in both directions and `peek_best_thread` are those of the lists;
`pop_best_thread` takes the first thread of the smallest priority that has one; and
an operation moves one thread at most. -/
theorem ready_matrix_is_fifo (cfg : Config) (k : Kernel) (ops : List MatrixOp)
    (hlinks : k.ready = Links.empty) (hbits : ∀ c, (k.schedulers c).bitmap = 0#32)
    (hops : PlainMatrix.AdmitsAll cfg ⟨k.tcbs, fun _ => []⟩ ops) :
    ∃ k' s results, (results, s) = PlainMatrix.run cfg ⟨k.tcbs, fun _ => []⟩ ops ∧
      k.matrixRun cfg ops = .ok (results, k') ∧
      (∀ c p, (k'.schedulers c).bitmap.getLsbD p = true ↔ s.lists (c, p) ≠ []) ∧
      (∀ c p n, (s.lists (c, p)).length ≤ n →
        k'.ready.walk n (k'.ready.head (c, p)) = s.lists (c, p) ∧
        k'.ready.flip.walk n (k'.ready.tail (c, p)) = (s.lists (c, p)).reverse) ∧
      (∀ c, ((k'.popBestThread c).1 = none ↔ ∀ p, s.lists (c, p) = []) ∧
        (∀ t, (k'.popBestThread c).1 = some t ↔
          ∃ p rest, s.lists (c, p) = t :: rest ∧ ∀ p' < p, s.lists (c, p') = []) ∧
        k'.peekBestThread c = (k'.popBestThread c).1) ∧
      ∀ op, s.Admits cfg op → ∀ i,
        ((s.step cfg op).2.lists i).filter (fun t => some t ≠ s.involved cfg op) =
          (s.lists i).filter (fun t => some t ≠ s.involved cfg op) := by
  obtain ⟨k', hrun, h⟩ := (MatrixRep.empty hlinks hbits).run ops hops
  refine ⟨k', _, _, rfl, hrun, fun c p => ?_, fun c p n hn => ⟨h.rep.links.walk_head hn,
    h.rep.links.walk_tail hn⟩, fun c => ⟨?_, fun t => ?_, k'.peekBestThread_eq c⟩,
    fun op _ i => PlainMatrix.filter_step h.rep.links.nodup op i⟩
  · rw [h.rep.bitmap]
    simp
  · rcases h.rep.popBestThread c with ⟨hpop, hempty⟩ | ⟨p, t, rest, hq, -, hpop⟩
    · simp [hpop, hempty]
    · rw [hpop]
      refine ⟨nofun, fun hall => ?_⟩
      rw [hall p] at hq
      cases hq
  · rcases h.rep.popBestThread c with ⟨hpop, hempty⟩ | ⟨p, u, rest, hq, hleast, hpop⟩
    · simp [hpop, hempty]
    · rw [hpop]
      constructor
      · intro heq
        cases heq
        exact ⟨p, rest, hq, hleast⟩
      · rintro ⟨p', rest', hq', hleast'⟩
        -- the smallest priority with a thread is unique
        rcases Nat.lt_trichotomy p p' with hlt | rfl | hlt
        · rw [hleast' p hlt] at hq
          cases hq
        · rw [hq] at hq'
          cases hq'
          rfl
        · rw [hleast p' hlt] at hq'
          cases hq'

/-- Three threads, the first and the third of priority 1, the second of priority 0. -/
def threeThreads : List MatrixOp :=
  [.write fun t => Kernel.newTcb (defaultConfig 1 Nat.one_pos) t 0
      (if t = .user 2 then 0 else 1) 0#32,
    .enqueue 0 (.user 1), .enqueue 0 (.user 2), .enqueue 0 (.user 3), .remove 0 (.user 1),
    .pop 0, .pop 0, .pop 0]

/-- The theorem applied to `threeThreads`. -/
theorem three_threads_are_fifo :
    PlainMatrix.AdmitsAll (defaultConfig 1 (by decide))
      ⟨(Kernel.initialised (defaultConfig 1 (by decide))).tcbs, fun _ => []⟩ threeThreads ∧
    ∃ k', (Kernel.initialised (defaultConfig 1 (by decide))).matrixRun
      (defaultConfig 1 (by decide)) threeThreads =
      .ok ([none, none, none, none, none, some (.user 2), some (.user 3), none], k') := by
  have hops : PlainMatrix.AdmitsAll (defaultConfig 1 (by decide))
      ⟨(Kernel.initialised (defaultConfig 1 (by decide))).tcbs, fun _ => []⟩ threeThreads := by
    refine ⟨trivial, ⟨fun i => List.not_mem_nil, rfl, by decide⟩, ⟨fun i => ?_, rfl, by decide⟩,
      ⟨fun i => ?_, rfl, by decide⟩, ?_, trivial, trivial, trivial, trivial⟩
    · simp only [PlainMatrix.step, PlainMatrix.setList, Function.update_apply]
      split_ifs <;> simp
    · simp only [PlainMatrix.step, PlainMatrix.setList, Function.update_apply]
      split_ifs <;> simp
    · show ThreadRef.user 1 ∈ [ThreadRef.user 1, ThreadRef.user 3]
      decide
  obtain ⟨k', s, results, hplain, hrun, -⟩ := ready_matrix_is_fifo (defaultConfig 1 (by decide))
    (Kernel.initialised (defaultConfig 1 (by decide))) threeThreads rfl (fun _ => rfl) hops
  obtain ⟨rfl, -⟩ := Prod.mk.inj hplain
  exact ⟨hops, k', hrun⟩

end Cortos
