import Cortos.Lib.Transition
import Cortos.Kernel.Scheduling
import Cortos.Kernel.Waitable

/-!
# What `is_enqueued` detects

`ThreadControlBlock::is_enqueued` and `WaitNode::is_enqueued` look at the two links of an
element and at nothing else. The only element of a list has neither link, so it is taken for
unlinked.

- `LinkOp`, `linkSystem`: the operations of the ready queues and of the wait queues in any
  order, on any number of queues, threads and nodes.
- `LinkOp.Within`: the element that is linked is not the only one of a list, and a node that
  names a waitable is removed from it only while it is linked.
- `LinksOk`: the pointers represent lists, and a linked node names its waitable.
- `double_enqueue_detected_iff`: `is_enqueued` is exact as long as no list has exactly one
  element, and a second `push_back` is caught exactly for an element that has company.
-/

namespace Cortos

open Lib

/-! ## The operations -/

/-- One operation on the ready queues or on the wait queues. -/
inductive LinkOp where
  /-- `ThreadReadyQueue::push_back` on the queue of priority `p` of core `c`. -/
  | pushBack (c p : Nat) (t : ThreadRef)
  | popFront (c p : Nat)
  | remove (c p : Nat) (t : ThreadRef)
  /-- The thread's state changes, as `set_ready` and its companions do. -/
  | setState (t : ThreadRef) (st : ThreadState)
  /-- `Waitable::add`. -/
  | add (w : WaitableRef) (n : NodeRef)
  /-- `Waitable::remove`. -/
  | removeNode (w : WaitableRef) (n : NodeRef)

/-- Every queue starts empty; what the nodes name is arbitrary. -/
def linkSystem : Lts Kernel LinkOp Panic where
  init k := k.ready = Links.empty ∧ k.waiters = Links.empty
  step k
    | .pushBack c p t => k.pushBack c p t
    | .popFront c p => .ok { k with ready := (k.ready.popFront (c, p)).2 }
    | .remove c p t => k.remove c p t
    | .setState t st => .ok (k.setState t st)
    | .add w n => k.addWaiter w n
    | .removeNode w n => .ok (k.removeWaiter w n)

/-- The condition under which the links never go wrong. An element that is linked next to
others may be linked again: the assertion stops it. A node may be removed from a waitable that
it does not name: `Waitable::remove` returns at once. If it names the waitable, it is linked. -/
def LinkOp.Within (k : Kernel) : LinkOp → Prop
  | .pushBack _ _ t => ∀ i, ¬ k.ready.Alone i t
  | .add _ n => ∀ w, ¬ k.waiters.Alone w n
  | .removeNode w n => (k.node n).waitable = some w → k.waiters.Linked n
  | _ => True

/-! ## The invariant -/

/-- The pointers represent the lists `q` and `wl`, and a linked node names its waitable. -/
structure LinksOk (k : Kernel) (q : Nat × Nat → List ThreadRef)
    (wl : WaitableRef → List NodeRef) : Prop where
  ready : k.ready.Rep q
  waiters : k.waiters.Rep wl
  named : ∀ w n, n ∈ wl w → (k.node n).waitable = some w

namespace Kernel

theorem node_modifyNode (k : Kernel) (n m : NodeRef) (f : WaitNode → WaitNode) :
    (k.modifyNode n f).node m = if m = n then f (k.node n) else k.node m := by
  obtain ⟨t, i⟩ := n
  obtain ⟨u, j⟩ := m
  unfold modifyNode modifyTcb node
  by_cases hu : u = t
  · subst hu
    by_cases hj : j = i
    · subst hj
      simp
    · simp [hj]
  · simp [hu]

theorem node_setState (k : Kernel) (t : ThreadRef) (st : ThreadState) (n : NodeRef) :
    (k.setState t st).node n = k.node n := by
  unfold setState modifyTcb node
  by_cases hn : n.owner = t
  · simp [hn]
  · simp [hn]

end Kernel

namespace LinksOk

variable {k k' : Kernel} {q : Nat × Nat → List ThreadRef} {wl : WaitableRef → List NodeRef}

theorem pushBack (h : LinksOk k q wl) {c p : Nat} {t : ThreadRef}
    (halone : ∀ i, ¬ k.ready.Alone i t) (hstep : k.pushBack c p t = .ok k') :
    ∃ q', LinksOk k' q' wl := by
  simp only [Kernel.pushBack, bind_ok, cortosAssert_ok, exists_const, Bool.not_eq_true', pure,
    Except.pure, Except.ok.injEq] at hstep
  obtain ⟨hfree, -, rfl⟩ := hstep
  exact ⟨_, h.ready.pushBack (h.ready.not_mem_of_not_isEnqueued halone hfree), h.waiters, h.named⟩

theorem popFront (h : LinksOk k q wl) (c p : Nat) :
    ∃ q', LinksOk { k with ready := (k.ready.popFront (c, p)).2 } q' wl := by
  cases hq : q (c, p) with
  | nil =>
    have hhead : k.ready.head (c, p) = none := by rw [h.ready.head, hq, List.head?_nil]
    refine ⟨q, ?_, h.waiters, h.named⟩
    show (k.ready.popFront (c, p)).2.Rep q
    rw [Links.popFront, hhead]
    exact h.ready
  | cons t post => exact ⟨_, (h.ready.popFront hq).2, h.waiters, h.named⟩

theorem remove (h : LinksOk k q wl) {c p : Nat} {t : ThreadRef}
    (hstep : k.remove c p t = .ok k') : ∃ q', LinksOk k' q' wl := by
  simp only [Kernel.remove, bind_ok, cortosAssert_ok, exists_const, Bool.or_eq_true, beq_iff_eq,
    pure, Except.pure, Except.ok.injEq] at hstep
  obtain ⟨hprev, hnext, -, rfl⟩ := hstep
  obtain ⟨j, hj, hunlink⟩ := h.ready.unlink_checked hprev hnext
  have hrep := h.ready.unlink_erase hj
  rw [← hunlink] at hrep
  exact ⟨_, hrep, h.waiters, h.named⟩

theorem setState (h : LinksOk k q wl) (t : ThreadRef) (st : ThreadState) :
    LinksOk (k.setState t st) q wl where
  ready := h.ready
  waiters := h.waiters
  named w n hn := by
    rw [Kernel.node_setState]
    exact h.named w n hn

theorem add (h : LinksOk k q wl) {w : WaitableRef} {n : NodeRef}
    (halone : ∀ v, ¬ k.waiters.Alone v n) (hstep : k.addWaiter w n = .ok k') :
    ∃ wl', LinksOk k' q wl' := by
  simp only [Kernel.addWaiter, bind_ok, cortosAssert_ok, exists_const, Bool.not_eq_true', pure,
    Except.pure, Except.ok.injEq] at hstep
  obtain ⟨-, hfree, rfl⟩ := hstep
  have hout := h.waiters.not_mem_of_not_isEnqueued halone hfree
  refine ⟨_, h.ready, h.waiters.pushBack hout, fun v m hm => ?_⟩
  show ((k.modifyNode n fun b => { b with waitable := some w }).node m).waitable = some v
  rw [Kernel.node_modifyNode]
  by_cases hv : v = w
  · subst hv
    rw [Function.update_self, List.mem_append, List.mem_singleton] at hm
    by_cases hmn : m = n
    · rw [if_pos hmn]
    · rw [if_neg hmn]
      exact h.named v m (hm.resolve_right hmn)
  · rw [Function.update_of_ne hv] at hm
    rw [if_neg (by rintro rfl; exact hout v hm)]
    exact h.named v m hm

theorem removeNode (h : LinksOk k q wl) (w : WaitableRef) {n : NodeRef}
    (hlinked : (k.node n).waitable = some w → k.waiters.Linked n) :
    ∃ wl', LinksOk (k.removeWaiter w n) q wl' := by
  unfold Kernel.removeWaiter
  by_cases hw : (k.node n).waitable = some w
  · rw [if_pos hw]
    -- the list that holds `n` is the one of the waitable it names
    obtain ⟨v, hv⟩ := h.waiters.linked_iff.mp (hlinked hw)
    obtain rfl : v = w := Option.some.inj ((h.named v n hv).symm.trans hw)
    refine ⟨_, h.ready, h.waiters.unlink_erase hv, fun u m hm => ?_⟩
    have hmem : m ∈ wl u ∧ m ≠ n := by
      by_cases hu : u = v
      · subst hu
        rw [Function.update_self, (h.waiters.nodup u).mem_erase_iff] at hm
        exact hm.symm
      · rw [Function.update_of_ne hu] at hm
        exact ⟨hm, fun hmn => hu (h.waiters.disjoint u v n (hmn ▸ hm) hv)⟩
    show ((k.modifyNode n fun b => { b with waitable := none }).node m).waitable = some u
    rw [Kernel.node_modifyNode, if_neg hmem.2]
    exact h.named u m hmem.1
  · rw [if_neg hw]
    exact ⟨wl, h⟩

end LinksOk

/-- Every operation within the contract keeps the lists. -/
theorem LinksOk.step {k k' : Kernel} {op : LinkOp} (h : ∃ q wl, LinksOk k q wl)
    (hin : op.Within k) (hstep : linkSystem.step k op = .ok k') : ∃ q wl, LinksOk k' q wl := by
  obtain ⟨q, wl, h⟩ := h
  cases op with
  | pushBack c p t =>
    obtain ⟨q', h'⟩ := h.pushBack hin hstep
    exact ⟨q', wl, h'⟩
  | popFront c p =>
    cases hstep
    obtain ⟨q', h'⟩ := h.popFront c p
    exact ⟨q', wl, h'⟩
  | remove c p t =>
    obtain ⟨q', h'⟩ := h.remove hstep
    exact ⟨q', wl, h'⟩
  | setState t st =>
    cases hstep
    exact ⟨q, wl, h.setState t st⟩
  | add w n =>
    obtain ⟨wl', h'⟩ := h.add hin hstep
    exact ⟨q, wl', h'⟩
  | removeNode w n =>
    cases hstep
    obtain ⟨wl', h'⟩ := h.removeNode w hin
    exact ⟨q, wl', h'⟩

theorem LinksOk.reach {k : Kernel} (h : linkSystem.ReachVia (fun k op => op.Within k) k) :
    ∃ q wl, LinksOk k q wl := by
  refine Lts.ReachVia.invariant (I := fun k => ∃ q wl, LinksOk k q wl) ?_ ?_ h
  · rintro k ⟨hready, hwaiters⟩
    refine ⟨fun _ => [], fun _ => [], ?_, ?_, nofun⟩
    · rw [hready]
      exact Links.Rep.empty
    · rw [hwaiters]
      exact Links.Rep.empty
  · exact fun _ _ _ _ hk hin hstep => LinksOk.step hk hin hstep

/-! ## The result -/

/-- **What the double-enqueue check detects.** After every sequence of operations of the
ready queues and of the wait queues in which an element that is the only one of its list is
not linked again and a node that names a waitable without being linked is not removed from it,
the pointers represent lists; `is_enqueued` is true of exactly the linked
elements if and only if no list has exactly one element; and `push_back` of a linked thread
fails its assertion exactly if the thread is not the only one of its queue. -/
theorem double_enqueue_detected_iff {k : Kernel}
    (hreach : linkSystem.ReachVia (fun k op => op.Within k) k) :
    ((∃ q, k.ready.Rep q) ∧ ∃ wl, k.waiters.Rep wl) ∧
    ((∀ t, k.ready.isEnqueued t = true ↔ k.ready.Linked t) ↔ ∀ i t, ¬ k.ready.Alone i t) ∧
    ((∀ n, k.waiters.isEnqueued n = true ↔ k.waiters.Linked n) ↔
      ∀ w n, ¬ k.waiters.Alone w n) ∧
    (∀ c p t, k.ready.Linked t →
      (k.pushBack c p t = .error .pushBackEnqueued ↔ ∀ i, ¬ k.ready.Alone i t)) := by
  obtain ⟨q, wl, h⟩ := LinksOk.reach hreach
  refine ⟨⟨⟨q, h.ready⟩, wl, h.waiters⟩, h.ready.isEnqueued_exact_iff,
    h.waiters.isEnqueued_exact_iff, fun c p t hlinked => ?_⟩
  have henq := h.ready.isEnqueued_iff (a := t)
  constructor
  · intro hfail
    cases hb : k.ready.isEnqueued t with
    | true => exact (henq.mp hb).2
    | false =>
      -- the first assertion passes, and the second one fails with another message
      rw [Kernel.pushBack, hb, Bool.not_false, cortosAssert_bind_true] at hfail
      cases hready : k.state t == .ready with
      | true => simp [hready, cortosAssert, bind, Except.bind, pure, Except.pure] at hfail
      | false => simp [hready, cortosAssert, bind, Except.bind] at hfail
  · intro halone
    rw [Kernel.pushBack, henq.mpr ⟨hlinked, halone⟩]
    rfl

/-- A queue with one thread, of the initialised kernel. -/
def oneLinked : Kernel :=
  { Kernel.initialised (defaultConfig 1 Nat.one_pos) with
    ready := Links.empty.pushBack (0, 0) (.user 0) }

theorem oneLinked_reached : linkSystem.ReachVia (fun k op => op.Within k) oneLinked := by
  have hinit : linkSystem.ReachVia (fun k op => op.Within k)
      (Kernel.initialised (defaultConfig 1 (by decide))) := .init ⟨rfl, rfl⟩
  have hin : LinkOp.Within (Kernel.initialised (defaultConfig 1 (by decide)))
      (.pushBack 0 0 (.user 0)) := fun i halone => nomatch halone.1
  exact hinit.step hin rfl

/-- With a second thread in the queue the first one is detected. -/
theorem company_detected : ∃ k, linkSystem.step oneLinked (.pushBack 0 0 (.user 1)) = .ok k ∧
    k.ready.Linked (.user 0) ∧ k.pushBack 0 0 (.user 0) = .error .pushBackEnqueued := by
  have hin : LinkOp.Within oneLinked (.pushBack 0 0 (.user 1)) := by
    rintro i ⟨hhead, -⟩
    by_cases hi : i = (0, 0)
    · subst hi
      cases hhead
    · simp [oneLinked, Links.pushBack_head, hi, Links.empty] at hhead
  have hreach := oneLinked_reached.step hin rfl
  have hlinked : (oneLinked.ready.pushBack (0, 0) (.user 1)).Linked (.user 0) :=
    ⟨(0, 0), 1, by decide⟩
  refine ⟨_, rfl, hlinked, ?_⟩
  refine ((double_enqueue_detected_iff hreach).2.2.2 0 0 (.user 0) hlinked).mpr ?_
  rintro i ⟨hhead, htail⟩
  by_cases hi : i = (0, 0)
  · subst hi
    cases htail
  · simp [oneLinked, Links.pushBack_head, hi, Links.empty] at hhead

/-- **The only thread of a queue is not detected.** It is linked but not taken for linked, so
a second `push_back` passes both assertions and makes the thread its own successor: the next
`pop_front` returns it and leaves it at the head of the queue, so that it is returned twice. The
only node of a waitable is linked a second time in the same way. -/
theorem lone_element_not_detected :
    (∃ k k' : Kernel, linkSystem.ReachVia (fun k op => op.Within k) k ∧
      k.ready.Linked (.user 0) ∧ k.ready.isEnqueued (.user 0) = false ∧
      k.pushBack 0 0 (.user 0) = .ok k' ∧ k'.ready.next (.user 0) = some (.user 0) ∧
      (k'.ready.popFront (0, 0)).1 = some (.user 0) ∧
      (k'.ready.popFront (0, 0)).2.head (0, 0) = some (.user 0)) ∧
    ∃ k k' k'' : Kernel, linkSystem.ReachVia (fun k op => op.Within k) k ∧
      k.addWaiter (.object 0) ⟨.user 0, 0⟩ = .ok k' ∧
      k'.waiters.Linked ⟨.user 0, 0⟩ ∧ k'.waiters.isEnqueued ⟨.user 0, 0⟩ = false ∧
      k'.addWaiter (.object 0) ⟨.user 0, 0⟩ = .ok k'' ∧
      k''.waiters.next ⟨.user 0, 0⟩ = some ⟨.user 0, 0⟩ := by
  refine ⟨⟨oneLinked, _, oneLinked_reached, ⟨(0, 0), 1, by decide⟩, by decide, rfl, by decide,
    by decide, by decide⟩, ?_⟩
  refine ⟨oneLinked, _, _, oneLinked_reached, rfl, ⟨.object 0, 1, ?_⟩, ?_, rfl, ?_⟩
  · decide
  · decide
  · decide

end Cortos
