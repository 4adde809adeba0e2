import Mathlib.Algebra.Order.Ring.Nat
import Mathlib.Data.List.MinMax
import Mathlib.Data.List.Perm.Basic
import Mathlib.Data.List.Sort

/-!
# Places in a list, and sorting by a key

A decomposition `xs = pre ++ c :: post` is an instant of a record, or the place
of an element between its neighbours. The first lemmas say what the decompositions
of an appended list are, and when the parts of two of them agree.

Mathlib's `List.insertionSort` is stable: elements with equal keys keep their order.
Its first element is the first of those with the least key, which is the one that
`List.argmin` returns, and the rest is the list without it, sorted. So a loop that
takes the first of the least elements until none is left goes through the list in this
order.
-/

namespace Cortos.Lib

universe u v

/-! ## Where an element of a list sits -/

section Decompose

variable {α : Type u}

/-- An element of `xs ++ ys` is in `xs` or in `ys`. -/
theorem append_eq_decompose {xs ys pre post : List α} {c : α}
    (h : xs ++ ys = pre ++ c :: post) :
    (∃ post', xs = pre ++ c :: post' ∧ post = post' ++ ys) ∨
      ∃ pre', ys = pre' ++ c :: post ∧ pre = xs ++ pre' := by
  rcases List.append_eq_append_iff.mp h with ⟨as, rfl, has⟩ | ⟨bs, rfl, hbs⟩
  · exact .inr ⟨as, has, rfl⟩
  · cases bs with
    | nil => exact .inr ⟨[], by simpa using hbs.symm, by simp⟩
    | cons b bs =>
      obtain ⟨rfl, rfl⟩ := by simpa using hbs
      exact .inl ⟨bs, rfl, rfl⟩

/-- An element of `xs ++ [a]` is the new one, or it was there before. -/
theorem append_singleton_eq {xs pre post : List α} {a c : α}
    (h : xs ++ [a] = pre ++ c :: post) :
    (post = [] ∧ c = a ∧ pre = xs) ∨
      ∃ post', post = post' ++ [a] ∧ xs = pre ++ c :: post' := by
  rcases append_eq_decompose h with ⟨post', hxs, hpost⟩ | ⟨pre', ha, hpre⟩
  · exact .inr ⟨post', hpost, hxs⟩
  · cases pre' with
    | nil =>
      obtain ⟨rfl, rfl⟩ := by simpa using ha
      exact .inl ⟨rfl, rfl, by simpa using hpre⟩
    | cons b pre' => simp at ha

/-- Two lists that are each split by the same property. -/
theorem perm_of_append {p : α → Prop} {as bs cs ds : List α} (h : (as ++ bs).Perm (cs ++ ds))
    (ha : ∀ x ∈ as, p x) (hb : ∀ x ∈ bs, ¬ p x) (hc : ∀ x ∈ cs, p x) (hd : ∀ x ∈ ds, ¬ p x) :
    as.Perm cs ∧ bs.Perm ds := by
  classical
  constructor
  · have hfilter := h.filter fun x => decide (p x)
    rwa [List.filter_append, List.filter_append,
      List.filter_eq_self.mpr fun x hx => decide_eq_true (ha x hx),
      List.filter_eq_nil_iff.mpr fun x hx => by simpa using hb x hx,
      List.filter_eq_self.mpr fun x hx => decide_eq_true (hc x hx),
      List.filter_eq_nil_iff.mpr fun x hx => by simpa using hd x hx,
      List.append_nil, List.append_nil] at hfilter
  · have hfilter := h.filter fun x => !decide (p x)
    rwa [List.filter_append, List.filter_append,
      List.filter_eq_nil_iff.mpr fun x hx => by simpa using ha x hx,
      List.filter_eq_self.mpr fun x hx => by simpa using hb x hx,
      List.filter_eq_nil_iff.mpr fun x hx => by simpa using hc x hx,
      List.filter_eq_self.mpr fun x hx => by simpa using hd x hx,
      List.nil_append, List.nil_append] at hfilter

end Decompose

/-! ## Taking the first of the least -/

section SortByKey

variable {α : Type u} {β : Type v} [LinearOrder β] {f : α → β} {l : List α} {x : α}

/-- The list in the order of the keys, elements with equal keys as they were. -/
def sortByKey (f : α → β) (l : List α) : List α := l.insertionSort fun x y => f x ≤ f y

theorem mem_sortByKey {y : α} : y ∈ sortByKey f l ↔ y ∈ l := List.mem_insertionSort _

theorem sortByKey_eq_nil : sortByKey f l = [] ↔ l = [] := by
  rw [← List.length_eq_zero_iff, sortByKey, List.length_insertionSort, List.length_eq_zero_iff]

/-- Where the first of the least elements is. -/
theorem argmin_split [DecidableEq α] (h : l.argmin f = some x) :
    ∃ pre post, l = pre ++ x :: post ∧ x ∉ pre ∧ (∀ y ∈ pre, f x < f y) ∧
      ∀ y ∈ post, f x ≤ f y := by
  obtain ⟨hmem, hle, hfirst⟩ := List.mem_argmin_iff.mp (Option.mem_def.mpr h)
  obtain ⟨pre, post, rfl, hnot⟩ := List.eq_append_cons_of_mem hmem
  refine ⟨pre, post, rfl, hnot, fun y hy => ?_, fun y hy => hle y ?_⟩
  · -- an earlier element with the same key would have been returned
    refine lt_of_not_ge fun hyx => ?_
    have hidx := hfirst y (List.mem_append_left _ hy) hyx
    rw [List.idxOf_append_of_notMem hnot, List.idxOf_cons_self, Nat.add_zero,
      List.idxOf_append_of_mem hy] at hidx
    exact absurd (List.idxOf_lt_length_of_mem hy) (Nat.not_lt.mpr hidx)
  · exact List.mem_append_right _ (List.mem_cons_of_mem _ hy)

/-- Sorting puts the first of the least elements in front. -/
theorem sortByKey_append {pre post : List α} (hpre : ∀ y ∈ pre, f x < f y)
    (hpost : ∀ y ∈ post, f x ≤ f y) :
    sortByKey f (pre ++ x :: post) = x :: sortByKey f (pre ++ post) := by
  induction pre with
  | nil => exact List.insertionSort_cons_of_forall_rel _ hpost
  | cons y pre ih =>
    have hy := not_le_of_gt (hpre y List.mem_cons_self)
    have ih := ih fun z hz => hpre z (List.mem_cons_of_mem _ hz)
    unfold sortByKey at ih ⊢
    rw [List.cons_append, List.insertionSort_cons, ih, List.orderedInsert_cons, if_neg hy]
    rfl

/-- The element that `argmin` returns, and then the others. -/
theorem sortByKey_of_argmin [DecidableEq α] (h : l.argmin f = some x) :
    sortByKey f l = x :: sortByKey f (l.erase x) := by
  obtain ⟨pre, post, rfl, hnot, hpre, hpost⟩ := argmin_split h
  rw [sortByKey_append hpre hpost, List.erase_append_right _ hnot, List.erase_cons_head]

/-- The first element in the order is the one that `argmin` returns. -/
theorem argmin_of_sortByKey [DecidableEq α] {xs : List α} (h : sortByKey f l = x :: xs) :
    l.argmin f = some x ∧ xs = sortByKey f (l.erase x) := by
  cases hmin : l.argmin f with
  | none =>
    rw [sortByKey_eq_nil.mpr (List.argmin_eq_none.mp hmin)] at h
    cases h
  | some y =>
    rw [sortByKey_of_argmin hmin] at h
    cases h
    exact ⟨rfl, rfl⟩

end SortByKey

end Cortos.Lib
