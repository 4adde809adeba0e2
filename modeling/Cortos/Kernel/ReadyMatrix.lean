import Cortos.Kernel.Basic

/-!
# The ready matrix (`threading_subsystem.cpp:118–173`)

Each core keeps one FIFO of ready threads per priority and a bitmap of the
priorities whose queue is not empty. `ReadyRep k q` says that the pointers and
the bitmaps of all cores represent the plain lists `q (core, priority)`;
`enqueue_thread` appends to one of them, `pop_best_thread` takes the head of
the non-empty one with the numerically smallest priority, and `remove_thread`
deletes from one.
-/

namespace Cortos

open Lib

namespace Kernel

/-- `ThreadReadyQueue::push_back` on the queue of priority `p` of core `c`. -/
def pushBack (k : Kernel) (c p : Nat) (t : ThreadRef) : Except Panic Kernel := do
  cortosAssert (!k.ready.isEnqueued t) .pushBackEnqueued
  cortosAssert (k.state t == .ready) .pushBackNotReady
  return { k with ready := k.ready.pushBack (c, p) t }

/-- `ThreadReadyMatrix::enqueue_thread`. -/
def enqueueThread (cfg : Config) (k : Kernel) (c : Nat) (t : ThreadRef) :
    Except Panic Kernel := do
  cortosAssert (decide (k.priority t < cfg.maxPriorities)) .enqueuePriority
  cortosAssert (k.state t == .ready) .enqueueNotReady
  let k' ← k.pushBack c (k.priority t) t
  return k'.modifySched c fun s => { s with bitmap := setBit s.bitmap (k.priority t) }

/-- `ThreadReadyMatrix::pop_best_thread`. -/
def popBestThread (k : Kernel) (c : Nat) : Option ThreadRef × Kernel :=
  if (k.schedulers c).bitmap = 0#32 then (none, k)
  else
    let priority := countrZero (k.schedulers c).bitmap
    let popped := k.ready.popFront (c, priority)
    let k' := { k with ready := popped.2 }
    if (popped.2.head (c, priority)).isNone then
      (popped.1,
        k'.modifySched c fun s => { s with bitmap := clearBit s.bitmap priority })
    else (popped.1, k')

/-- `ThreadReadyQueue::remove` on the queue of priority `p` of core `c`. -/
def remove (k : Kernel) (c p : Nat) (t : ThreadRef) : Except Panic Kernel := do
  cortosAssert (k.ready.head (c, p) == some t || (k.ready.prev t).isSome) .removeNoPrev
  cortosAssert (k.ready.tail (c, p) == some t || (k.ready.next t).isSome) .removeNoNext
  let ready := k.ready.unlink (c, p) t
  cortosAssert ((ready.head (c, p)).isNone == (ready.tail (c, p)).isNone) .removeEnds
  return { k with ready }

/-- `if (matrix[priority].empty()) bitmap &= ~(1u << priority)`. -/
def clearIfEmpty (k : Kernel) (c p : Nat) : Kernel :=
  if (k.ready.head (c, p)).isNone then
    k.modifySched c fun s => { s with bitmap := clearBit s.bitmap p }
  else k

/-- `ThreadReadyMatrix::remove_thread`. -/
def removeThread (k : Kernel) (c : Nat) (t : ThreadRef) : Except Panic Kernel := do
  let priority := k.priority t
  let k' ← k.remove c priority t
  return k'.clearIfEmpty c priority

/-- `ThreadReadyMatrix::peek_best_thread`. -/
def peekBestThread (k : Kernel) (c : Nat) : Option ThreadRef :=
  if (k.schedulers c).bitmap = 0#32 then none
  else k.ready.head (c, countrZero (k.schedulers c).bitmap)

/-! ## Effects in closed form -/

/-- The kernel after `t` has been linked at the end of its queue on core `c`. -/
def linkReady (k : Kernel) (c : Nat) (t : ThreadRef) : Kernel :=
  { k with
    ready := k.ready.pushBack (c, k.priority t) t
    schedulers := Function.update k.schedulers c
      { k.schedulers c with bitmap := setBit (k.schedulers c).bitmap (k.priority t) } }

/-- The kernel after the first thread of queue `p` of core `c` has been
detached. -/
def dropReady (k : Kernel) (c p : Nat) : Kernel :=
  { k with
    ready := (k.ready.popFront (c, p)).2
    schedulers := Function.update k.schedulers c
      { k.schedulers c with
        bitmap :=
          if ((k.ready.popFront (c, p)).2.head (c, p)).isNone then
            clearBit (k.schedulers c).bitmap p
          else (k.schedulers c).bitmap } }

theorem dropReady_eq (k : Kernel) (c p : Nat) :
    k.dropReady c p = ({ k with ready := (k.ready.popFront (c, p)).2 } : Kernel).clearIfEmpty c p := by
  unfold dropReady clearIfEmpty modifySched
  split_ifs
  · rfl
  · rw [Function.update_eq_self]

/-- `peek_best_thread` returns what `pop_best_thread` would. -/
theorem peekBestThread_eq (k : Kernel) (c : Nat) :
    k.peekBestThread c = (k.popBestThread c).1 := by
  unfold peekBestThread popBestThread
  split_ifs
  · rfl
  · simp only [Links.popFront_fst]
    split_ifs
    · rfl
    · rfl

/-- `enqueue_thread` passes its assertions and those of `push_back` exactly
when the thread is unlinked and Ready with a priority the matrix has, and then
links it. -/
theorem enqueueThread_ok {cfg : Config} {k k' : Kernel} {c : Nat} {t : ThreadRef} :
    enqueueThread cfg k c t = .ok k' ↔
      (k.priority t < cfg.maxPriorities ∧ k.state t = .ready ∧
        k.ready.isEnqueued t = false) ∧ k' = k.linkReady c t := by
  simp only [enqueueThread, pushBack, bind_ok, cortosAssert_ok, exists_const,
    decide_eq_true_eq, beq_iff_eq, Bool.not_eq_true', pure, Except.pure, Except.ok.injEq]
  constructor
  · rintro ⟨hp, hs, _, ⟨he, -, rfl⟩, rfl⟩
    exact ⟨⟨hp, hs, he⟩, rfl⟩
  · rintro ⟨⟨hp, hs, he⟩, rfl⟩
    exact ⟨hp, hs, _, ⟨he, hs, rfl⟩, rfl⟩

end Kernel

/-! ## Representation -/

/-- The pointers and bitmaps of all ready matrices represent the lists `q`. -/
structure ReadyRep (k : Kernel) (q : Nat × Nat → List ThreadRef) : Prop where
  links : k.ready.Rep q
  bitmap : ∀ c p, (k.schedulers c).bitmap.getLsbD p = !(q (c, p)).isEmpty

namespace ReadyRep

variable {k : Kernel} {q : Nat × Nat → List ThreadRef}

/-- Only the links and the bitmaps matter. -/
theorem congr (h : ReadyRep k q) {k' : Kernel} (hl : k'.ready = k.ready)
    (hb : ∀ c, (k'.schedulers c).bitmap = (k.schedulers c).bitmap) : ReadyRep k' q where
  links := hl ▸ h.links
  bitmap c p := by rw [hb, h.bitmap]

theorem linkReady (h : ReadyRep k q) {c : Nat} {t : ThreadRef} (ht : ∀ i, t ∉ q i)
    (hp : k.priority t < 32) :
    ReadyRep (k.linkReady c t)
      (Function.update q (c, k.priority t) (q (c, k.priority t) ++ [t])) where
  links := h.links.pushBack ht
  bitmap d p := by
    have hbit := h.bitmap d p
    by_cases hd : d = c
    · subst hd
      by_cases hpp : p = k.priority t
      · subst hpp
        simp only [Kernel.linkReady, Function.update_self, getLsbD_setBit, hp]
        simp
      · simp [Kernel.linkReady, getLsbD_setBit, hpp, hbit]
    · simp [Kernel.linkReady, hd, hbit]

/-- Clearing the bit of a queue that may have become empty restores the bitmap. -/
theorem clearIfEmpty {c p : Nat} (hlinks : k.ready.Rep q)
    (hother : ∀ d p', (d, p') ≠ (c, p) →
      (k.schedulers d).bitmap.getLsbD p' = !(q (d, p')).isEmpty)
    (hset : (k.schedulers c).bitmap.getLsbD p = true) : ReadyRep (k.clearIfEmpty c p) q := by
  have hhead := hlinks.head (c, p)
  unfold Kernel.clearIfEmpty
  split_ifs with hnone
  · refine ⟨hlinks, fun d p' => ?_⟩
    by_cases hd : d = c
    · subst hd
      show (Function.update k.schedulers d _ d).bitmap.getLsbD p' = _
      rw [Function.update_self, getLsbD_clearBit]
      by_cases hp : p' = p
      · subst hp
        rw [hhead] at hnone
        simpa using hnone
      · simp [hp, hother d p' (by simp [hp])]
    · show (Function.update k.schedulers c _ d).bitmap.getLsbD p' = _
      rw [Function.update_of_ne hd]
      exact hother d p' (by simp [hd])
  · refine ⟨hlinks, fun d p' => ?_⟩
    by_cases hi : (d, p') = (c, p)
    · obtain ⟨rfl, rfl⟩ := Prod.mk.inj hi
      rw [hset]
      rw [hhead] at hnone
      cases hq : q (d, p') with
      | nil => simp [hq] at hnone
      | cons t rest => rfl
    · exact hother d p' hi

theorem dropReady (h : ReadyRep k q) {c p : Nat} {t : ThreadRef} {rest : List ThreadRef}
    (hq : q (c, p) = t :: rest) :
    ReadyRep (k.dropReady c p) (Function.update q (c, p) rest) := by
  rw [Kernel.dropReady_eq]
  refine clearIfEmpty (h.links.popFront hq).2 (fun d p' hne => ?_) ?_
  · rw [Function.update_of_ne hne]
    exact h.bitmap d p'
  · show (k.schedulers c).bitmap.getLsbD p = true
    rw [h.bitmap, hq]
    rfl

/-- `remove_thread` passes the assertions of `remove` for a thread that is in the
queue of its priority, and deletes it from that queue. -/
theorem removeThread (h : ReadyRep k q) {c : Nat} {t : ThreadRef}
    (ht : t ∈ q (c, k.priority t)) :
    ∃ k', k.removeThread c t = .ok k' ∧ k'.tcbs = k.tcbs ∧
      ReadyRep k' (Function.update q (c, k.priority t) ((q (c, k.priority t)).erase t)) := by
  have hlinks := h.links.unlink_erase ht
  obtain ⟨pre, post, hq⟩ := List.append_of_mem ht
  obtain ⟨hprev, hnext⟩ := h.links.link _ pre t post hq
  -- a thread without a predecessor is the head, one without a successor the tail
  have hfirst : (k.ready.head (c, k.priority t) == some t || (k.ready.prev t).isSome) = true := by
    rw [h.links.head, hprev, hq]
    cases pre with
    | nil => simp
    | cons a pre => simp [List.getLast?_cons]
  have hlast : (k.ready.tail (c, k.priority t) == some t || (k.ready.next t).isSome) = true := by
    rw [h.links.tail, hnext, hq]
    cases post with
    | nil => simp
    | cons a post => simp
  have hends : (((k.ready.unlink (c, k.priority t) t).head (c, k.priority t)).isNone ==
      ((k.ready.unlink (c, k.priority t) t).tail (c, k.priority t)).isNone) = true := by
    rw [hlinks.head, hlinks.tail]
    cases (Function.update q (c, k.priority t) _ (c, k.priority t) : List ThreadRef) with
    | nil => rfl
    | cons a rest => simp [List.getLast?_cons]
  refine ⟨_, ?_, ?_, clearIfEmpty (c := c) (p := k.priority t)
    (k := { k with ready := k.ready.unlink (c, k.priority t) t }) hlinks (fun d p' hne => ?_) ?_⟩
  · simp only [Kernel.removeThread, Kernel.remove, hfirst, hlast, hends, cortosAssert_bind_true]
    rfl
  · unfold Kernel.clearIfEmpty
    split_ifs
    · rfl
    · rfl
  · rw [Function.update_of_ne hne]
    exact h.bitmap d p'
  · show (k.schedulers c).bitmap.getLsbD (k.priority t) = true
    rw [h.bitmap, hq]
    simp

/-- `pop_best_thread` returns null exactly on an empty matrix, and otherwise
detaches the head of the first non-empty queue. -/
theorem popBestThread (h : ReadyRep k q) (c : Nat) :
    (k.popBestThread c = (none, k) ∧ ∀ p, q (c, p) = []) ∨
      ∃ p t rest, q (c, p) = t :: rest ∧ (∀ p' < p, q (c, p') = []) ∧
        k.popBestThread c = (some t, k.dropReady c p) := by
  by_cases hz : (k.schedulers c).bitmap = 0#32
  · refine .inl ⟨by simp [Kernel.popBestThread, hz], fun p => ?_⟩
    have := h.bitmap c p
    simpa [hz] using this
  · obtain ⟨-, hset, hleast⟩ := countrZero_spec hz
    have hne : q (c, countrZero (k.schedulers c).bitmap) ≠ [] := by
      have := h.bitmap c (countrZero (k.schedulers c).bitmap)
      rw [hset] at this
      simpa using this.symm
    obtain ⟨t, rest, hq⟩ := List.exists_cons_of_ne_nil hne
    refine .inr ⟨_, t, rest, hq, fun p' hp' => ?_, ?_⟩
    · have := h.bitmap c p'
      rw [hleast p' hp'] at this
      simpa using this.symm
    · have hpop := (h.links.popFront hq).1
      simp only [Kernel.popBestThread, hz, if_false, Kernel.dropReady, Kernel.modifySched]
      split
      · simp [hpop]
      · simp [hpop]

end ReadyRep

end Cortos
