import Mathlib.Logic.Function.Basic
import Mathlib.Data.List.Nodup
import Cortos.Lib.Lists

/-!
# Families of intrusive doubly linked lists

An intrusive list keeps its links inside its elements: every element has one
`next` and one `prev` pointer, and each list of the family (indexed by `ι`) has
a `head` and a `tail`. All lists of the family share the elements' pointers, so
an element can be on one list at most.

- `Links`: the pointers, with the pointer-level operations `pushBack`,
  `popFront` and `unlink`, each a transcription of the usual code;
- `Links.Rep l xs`: the pointers of `l` represent the family `xs` of plain
  lists, and the elements on no list have null links;
- `Rep.pushBack`, `Rep.popFront`, `Rep.unlink`: the pointer operations act as
  append, tail and deletion on the represented lists;
- `Rep.walk_head`, `Rep.walk_tail`: following the links from either end reads
  off the represented list.

`Rep` states each element's links through the decompositions of its list
(`xs i = pre ++ a :: post`): `a.prev` is the last element of `pre` and `a.next`
the first of `post`. Insertion and deletion then only rearrange decompositions.
-/

namespace Cortos.Lib

universe u v

/-- The pointers of a family of intrusive doubly linked lists. -/
structure Links (ι : Type u) (α : Type v) where
  next : α → Option α
  prev : α → Option α
  head : ι → Option α
  tail : ι → Option α

namespace Links

variable {ι : Type u} {α : Type v} [DecidableEq ι] [DecidableEq α]

/-- No list has an element and every link is null. -/
def empty : Links ι α where
  next _ := none
  prev _ := none
  head _ := none
  tail _ := none

/-- The element's links are not both null. This is *not* membership: the only
element of a list has null links. -/
def isEnqueued (l : Links ι α) (a : α) : Bool :=
  (l.next a).isSome || (l.prev a).isSome

/-- Null the links of `a`. -/
def clear (l : Links ι α) (a : α) : Links ι α :=
  { l with next := Function.update l.next a none, prev := Function.update l.prev a none }

/-- Append `a` to list `i`: `a.prev = tail; a.next = null;` then the old tail,
or `head` if there is none, points to `a`, and `tail = a`. -/
def pushBack (l : Links ι α) (i : ι) (a : α) : Links ι α :=
  match l.tail i with
  | some b =>
    { next := Function.update (Function.update l.next a none) b (some a)
      prev := Function.update l.prev a (some b)
      head := l.head
      tail := Function.update l.tail i (some a) }
  | none =>
    { next := Function.update l.next a none
      prev := Function.update l.prev a none
      head := Function.update l.head i (some a)
      tail := Function.update l.tail i (some a) }

/-- Detach the head `a` of list `i`: `head = a.next;` then the new head's `prev`,
or `tail` if there is none, is nulled, and so are the links of `a`. -/
def popFront (l : Links ι α) (i : ι) : Option α × Links ι α :=
  match l.head i with
  | none => (none, l)
  | some a =>
    match l.next a with
    | some b =>
      (some a,
        { next := Function.update l.next a none
          prev := Function.update (Function.update l.prev b none) a none
          head := Function.update l.head i (some b)
          tail := l.tail })
    | none =>
      (some a,
        { next := Function.update l.next a none
          prev := Function.update l.prev a none
          head := Function.update l.head i none
          tail := Function.update l.tail i none })

/-- Detach `a` from list `i`: its neighbours (or `head`/`tail` where there is
none) are linked to each other, and the links of `a` are nulled. -/
def unlink (l : Links ι α) (i : ι) (a : α) : Links ι α :=
  let next' := match l.prev a with
    | some p => Function.update l.next p (l.next a)
    | none => l.next
  let head' := match l.prev a with
    | some _ => l.head
    | none => Function.update l.head i (l.next a)
  let prev' := match l.next a with
    | some n => Function.update l.prev n (l.prev a)
    | none => l.prev
  let tail' := match l.next a with
    | some _ => l.tail
    | none => Function.update l.tail i (l.prev a)
  { next := Function.update next' a none
    prev := Function.update prev' a none
    head := head'
    tail := tail' }

/-! ## Representation -/

/-- The pointers `l` represent the family of lists `xs`. -/
structure Rep (l : Links ι α) (xs : ι → List α) : Prop where
  head : ∀ i, l.head i = (xs i).head?
  tail : ∀ i, l.tail i = (xs i).getLast?
  link : ∀ i pre a post, xs i = pre ++ a :: post →
    l.prev a = pre.getLast? ∧ l.next a = post.head?
  nodup : ∀ i, (xs i).Nodup
  disjoint : ∀ i j a, a ∈ xs i → a ∈ xs j → i = j
  free : ∀ a, (∀ i, a ∉ xs i) → l.next a = none ∧ l.prev a = none

variable {l : Links ι α} {xs : ι → List α}

omit [DecidableEq ι] [DecidableEq α] in
theorem Rep.empty : Rep (empty : Links ι α) fun _ => [] where
  head _ := rfl
  tail _ := rfl
  link _ pre a post h := by simp at h
  nodup _ := List.nodup_nil
  disjoint _ _ _ h := by simp at h
  free _ _ := ⟨rfl, rfl⟩

omit [DecidableEq ι] [DecidableEq α] in
/-- A list with a null tail is empty. -/
theorem Rep.tail_eq_none (h : Rep l xs) {i : ι} : l.tail i = none ↔ xs i = [] := by
  rw [h.tail, List.getLast?_eq_none_iff]

omit [DecidableEq ι] [DecidableEq α] in
/-- The elements on no list are not enqueued. -/
theorem Rep.not_isEnqueued (h : Rep l xs) {a : α} (ha : ∀ i, a ∉ xs i) :
    l.isEnqueued a = false := by
  obtain ⟨h₁, h₂⟩ := h.free a ha
  simp [isEnqueued, h₁, h₂]

omit [DecidableEq ι] in
/-- Nulling null links changes nothing. -/
theorem Rep.clear_eq (h : Rep l xs) {a : α} (ha : ∀ i, a ∉ xs i) : l.clear a = l := by
  obtain ⟨hn, hp⟩ := h.free a ha
  cases l
  simp only [Links.clear, Links.mk.injEq, and_self, and_true]
  exact ⟨Function.update_eq_self_iff.mpr hn.symm, Function.update_eq_self_iff.mpr hp.symm⟩

/-! ## The operations on represented lists -/

theorem pushBack_next (i : ι) (a c : α) :
    (l.pushBack i a).next c =
      if l.tail i = some c then some a else if c = a then none else l.next c := by
  cases ht : l.tail i <;> simp [pushBack, ht, Function.update_apply, eq_comm]

theorem pushBack_prev (i : ι) (a c : α) :
    (l.pushBack i a).prev c = if c = a then l.tail i else l.prev c := by
  cases ht : l.tail i <;> simp [pushBack, ht, Function.update_apply]

theorem pushBack_head (i : ι) (a : α) (j : ι) :
    (l.pushBack i a).head j = if j = i ∧ l.tail i = none then some a else l.head j := by
  cases ht : l.tail i <;> simp [pushBack, ht, Function.update_apply]

theorem pushBack_tail (i : ι) (a : α) (j : ι) :
    (l.pushBack i a).tail j = if j = i then some a else l.tail j := by
  cases ht : l.tail i <;> simp [pushBack, ht, Function.update_apply]

/-- Appending an element that is on no list. -/
theorem Rep.pushBack (h : Rep l xs) {i : ι} {a : α} (ha : ∀ j, a ∉ xs j) :
    Rep (l.pushBack i a) (Function.update xs i (xs i ++ [a])) := by
  have hother : ∀ {j} {pre post : List α} {c : α}, xs j = pre ++ c :: post → c ≠ a := by
    rintro j pre post c hj rfl
    exact ha j (by simp [hj])
  have hnodup : ∀ j, (Function.update xs i (xs i ++ [a]) j).Nodup := by
    intro j
    by_cases hj : j = i
    · subst hj
      simpa [List.nodup_append, h.nodup j] using fun b hb (hba : b = a) => ha j (hba ▸ hb)
    · rw [Function.update_of_ne hj]
      exact h.nodup j
  have hdisj : ∀ j k c, c ∈ Function.update xs i (xs i ++ [a]) j →
      c ∈ Function.update xs i (xs i ++ [a]) k → j = k := by
    have hmem : ∀ {j c}, c ∈ Function.update xs i (xs i ++ [a]) j →
        c ∈ xs j ∨ (c = a ∧ j = i) := by
      intro j c hc
      by_cases hj : j = i
      · subst hj
        simpa using hc
      · rw [Function.update_of_ne hj] at hc
        exact .inl hc
    intro j k c hj hk
    rcases hmem hj with hcj | ⟨hca, hji⟩ <;> rcases hmem hk with hck | ⟨hca', hki⟩
    · exact h.disjoint j k c hcj hck
    · exact absurd (hca' ▸ hcj) (ha j)
    · exact absurd (hca ▸ hck) (ha k)
    · exact hji.trans hki.symm
  have hfree : ∀ {c}, (∀ j, c ∉ Function.update xs i (xs i ++ [a]) j) →
      c ≠ a ∧ ∀ j, c ∉ xs j := by
    intro c hc
    have hi := hc i
    simp only [Function.update_self, List.mem_append, List.mem_singleton, not_or] at hi
    refine ⟨hi.2, fun j hj => ?_⟩
    by_cases hji : j = i
    · exact hi.1 (hji ▸ hj)
    · exact hc j (by rwa [Function.update_of_ne hji])
  have htail_mem : ∀ {c}, l.tail i = some c → c ∈ xs i := fun hc =>
    List.mem_of_getLast? ((h.tail i).symm.trans hc)
  refine ⟨fun j => ?_, fun j => ?_, fun j pre c post hj => ?_, hnodup, hdisj, fun c hc => ?_⟩
  · rw [pushBack_head]
    by_cases hj : j = i
    · subst hj
      cases hx : xs j with
      | nil => simp [h.tail_eq_none.mpr hx]
      | cons b ys => simp [h.tail_eq_none, hx, h.head j]
    · simp [hj, h.head j]
  · rw [pushBack_tail]
    by_cases hj : j = i
    · subst hj
      simp
    · simp [hj, h.tail j]
  · rw [pushBack_prev, pushBack_next]
    by_cases hji : j = i
    · subst hji
      rw [Function.update_self] at hj
      rcases append_singleton_eq hj with ⟨rfl, rfl, rfl⟩ | ⟨post', rfl, hx⟩
      · have ht : l.tail j ≠ some c := fun hc => ha j (htail_mem hc)
        rw [if_pos rfl, if_neg ht, if_pos rfl]
        exact ⟨h.tail j, rfl⟩
      · -- the old tail is the only other element whose links change
        obtain ⟨hpc, hnc⟩ := h.link j pre c post' hx
        rw [if_neg (hother hx), if_neg (hother hx)]
        refine ⟨hpc, ?_⟩
        cases post' with
        | nil =>
          rw [if_pos (by rw [h.tail, hx]; simp)]
          rfl
        | cons d post' =>
          have ht : l.tail j ≠ some c := by
            intro hc
            have hmem : c ∈ d :: post' := by
              rw [h.tail, hx, List.getLast?_append, List.getLast?_cons_cons] at hc
              exact List.mem_of_getLast? (by simpa using hc)
            have hnd := h.nodup j
            rw [hx, List.nodup_append, List.nodup_cons] at hnd
            exact hnd.2.1.1 hmem
          rw [if_neg ht, hnc]
          rfl
    · rw [Function.update_of_ne hji] at hj
      have ht : l.tail i ≠ some c := fun hc =>
        hji (h.disjoint j i c (by simp [hj]) (htail_mem hc))
      rw [if_neg (hother hj), if_neg ht, if_neg (hother hj)]
      exact h.link j pre c post hj
  · obtain ⟨hca, hout⟩ := hfree hc
    have ht : l.tail i ≠ some c := fun hc => hout i (htail_mem hc)
    rw [pushBack_next, pushBack_prev, if_neg ht, if_neg hca, if_neg hca]
    exact h.free c hout

theorem unlink_next (i : ι) (a c : α) :
    (l.unlink i a).next c =
      if c = a then none else if l.prev a = some c then l.next a else l.next c := by
  cases hp : l.prev a <;> by_cases hc : c = a <;>
    simp [unlink, hp, Function.update_apply, hc, eq_comm]

theorem unlink_prev (i : ι) (a c : α) :
    (l.unlink i a).prev c =
      if c = a then none else if l.next a = some c then l.prev a else l.prev c := by
  cases hn : l.next a <;> by_cases hc : c = a <;>
    simp [unlink, hn, Function.update_apply, hc, eq_comm]

theorem unlink_head (i : ι) (a : α) (j : ι) :
    (l.unlink i a).head j =
      if j = i ∧ l.prev a = none then l.next a else l.head j := by
  cases hp : l.prev a <;> simp [unlink, hp, Function.update_apply]

theorem unlink_tail (i : ι) (a : α) (j : ι) :
    (l.unlink i a).tail j =
      if j = i ∧ l.next a = none then l.prev a else l.tail j := by
  cases hn : l.next a <;> simp [unlink, hn, Function.update_apply]

/-- Detaching an element from its list. -/
theorem Rep.unlink (h : Rep l xs) {i : ι} {a : α} {pre post : List α}
    (hi : xs i = pre ++ a :: post) :
    Rep (l.unlink i a) (Function.update xs i (pre ++ post)) := by
  obtain ⟨hprev, hnext⟩ := h.link i pre a post hi
  have hnd : (pre ++ a :: post).Nodup := hi ▸ h.nodup i
  have hsub : ∀ {j c}, c ∈ Function.update xs i (pre ++ post) j → c ∈ xs j ∧ c ≠ a := by
    intro j c hc
    by_cases hj : j = i
    · subst hj
      rw [Function.update_self] at hc
      refine ⟨by rw [hi]; simp at hc ⊢; tauto, ?_⟩
      rintro rfl
      rw [List.nodup_append, List.nodup_cons] at hnd
      rcases List.mem_append.mp hc with hc | hc
      · exact hnd.2.2 c hc c (by simp) rfl
      · exact hnd.2.1.1 hc
    · rw [Function.update_of_ne hj] at hc
      refine ⟨hc, ?_⟩
      rintro rfl
      exact hj (h.disjoint j i c hc (by simp [hi]))
  -- the neighbours of `a` are on list `i`
  have hprev_mem : ∀ {c}, l.prev a = some c → c ∈ xs i := by
    intro c hc
    rw [hi]
    exact List.mem_append_left _ (List.mem_of_getLast? (hprev.symm.trans hc))
  have hnext_mem : ∀ {c}, l.next a = some c → c ∈ xs i := by
    intro c hc
    rw [hi]
    exact List.mem_append_right _ (List.mem_cons_of_mem _
      (List.mem_of_mem_head? (hnext.symm.trans hc)))
  refine ⟨fun j => ?_, fun j => ?_, fun j p c q hj => ?_, fun j => ?_, fun j k c hj hk => ?_,
    fun c hc => ?_⟩
  · rw [unlink_head]
    by_cases hj : j = i
    · subst hj
      cases pre with
      | nil => simpa [hprev] using hnext
      | cons b pre => simp [hprev, List.getLast?_cons, h.head j, hi]
    · simp [hj, h.head j]
  · rw [unlink_tail]
    by_cases hj : j = i
    · subst hj
      rcases List.eq_nil_or_concat post with rfl | ⟨post, b, rfl⟩
      · simpa [hnext] using hprev
      · cases post <;> simp [hnext, h.tail j, hi, List.getLast?_cons, List.getLast?_append]
    · simp [hj, h.tail j]
  · have hc : c ∈ Function.update xs i (pre ++ post) j := by simp [hj]
    obtain ⟨hcj, hca⟩ := hsub hc
    rw [unlink_next, unlink_prev, if_neg hca, if_neg hca]
    by_cases hji : j = i
    · subst hji
      rw [Function.update_self] at hj
      rcases append_eq_decompose hj with ⟨q', rfl, rfl⟩ | ⟨p', rfl, rfl⟩
      · -- `c` is before `a`: its `next` changes if it is the last of `pre`
        obtain ⟨hpc, hnc⟩ := h.link j p c (q' ++ a :: post) (by simpa using hi)
        have hn : l.next a ≠ some c := by
          intro hcn
          have hmem : c ∈ post := List.mem_of_mem_head? (hnext.symm.trans hcn)
          rw [List.nodup_append] at hnd
          exact hnd.2.2 c (by simp) c (by simp [hmem]) rfl
        rw [if_neg hn]
        refine ⟨hpc, ?_⟩
        rcases List.eq_nil_or_concat q' with rfl | ⟨q'', d, rfl⟩
        · rw [if_pos (by simpa using hprev), hnext]
          rfl
        · have hp : l.prev a ≠ some c := by
            rw [hprev]
            intro hcd
            obtain rfl : d = c := by simpa [List.getLast?_append, List.getLast?_cons] using hcd
            simp [List.nodup_append] at hnd
          rw [if_neg hp, hnc]
          cases q'' <;> simp
      · -- `c` is after `a`: its `prev` changes if it is the first of `post`
        obtain ⟨hpc, hnc⟩ := h.link j (pre ++ a :: p') c q (by simpa using hi)
        have hp : l.prev a ≠ some c := by
          intro hcp
          have hmem : c ∈ pre := List.mem_of_getLast? (hprev.symm.trans hcp)
          rw [List.nodup_append] at hnd
          exact hnd.2.2 c hmem c (by simp) rfl
        rw [if_neg hp]
        refine ⟨?_, hnc⟩
        cases p' with
        | nil =>
          rw [if_pos (by simpa using hnext), hprev]
          simp
        | cons d p'' =>
          have hn : l.next a ≠ some c := by
            rw [hnext]
            intro hcd
            obtain rfl : d = c := by simpa using hcd
            rw [List.nodup_append, List.nodup_cons] at hnd
            simp at hnd
          rw [if_neg hn, hpc]
          simp [List.getLast?_append, List.getLast?_cons]
    · rw [Function.update_of_ne hji] at hj
      have hp : l.prev a ≠ some c := fun hc => hji (h.disjoint j i c hcj (hprev_mem hc))
      have hn : l.next a ≠ some c := fun hc => hji (h.disjoint j i c hcj (hnext_mem hc))
      rw [if_neg hp, if_neg hn]
      exact h.link j p c q hj
  · by_cases hj : j = i
    · subst hj
      rw [Function.update_self]
      exact hnd.sublist (by simp)
    · rw [Function.update_of_ne hj]
      exact h.nodup j
  · exact h.disjoint j k c (hsub hj).1 (hsub hk).1
  · rw [unlink_next, unlink_prev]
    by_cases hca : c = a
    · simp [hca]
    · have hout : ∀ j, c ∉ xs j := by
        intro j hj
        refine hc j ?_
        by_cases hji : j = i
        · subst hji
          rw [Function.update_self]
          rw [hi] at hj
          simp only [List.mem_append, List.mem_cons, hca, false_or] at hj
          exact List.mem_append.mpr hj
        · rwa [Function.update_of_ne hji]
      have hp : l.prev a ≠ some c := fun hcp => hout i (hprev_mem hcp)
      have hn : l.next a ≠ some c := fun hcn => hout i (hnext_mem hcn)
      rw [if_neg hca, if_neg hca, if_neg hp, if_neg hn]
      exact h.free c hout

/-- Detaching, stated with `erase`. -/
theorem Rep.unlink_erase (h : Rep l xs) {i : ι} {a : α} (ha : a ∈ xs i) :
    Rep (l.unlink i a) (Function.update xs i ((xs i).erase a)) := by
  obtain ⟨pre, post, hi⟩ := List.append_of_mem ha
  have hout : a ∉ pre := by
    have hnd := h.nodup i
    rw [hi, List.nodup_append] at hnd
    exact fun hpre => hnd.2.2 a hpre a (by simp) rfl
  rw [show (xs i).erase a = pre ++ post by rw [hi, List.erase_append_right _ hout]; simp]
  exact h.unlink hi

omit [DecidableEq ι] [DecidableEq α] in
/-- The head of a represented list has no predecessor. -/
theorem Rep.prev_head (h : Rep l xs) {i : ι} {a : α} {post : List α}
    (hi : xs i = a :: post) : l.prev a = none :=
  (h.link i [] a post hi).1

theorem popFront_fst (i : ι) : (l.popFront i).1 = l.head i := by
  unfold Links.popFront
  cases l.head i with
  | none => rfl
  | some a => cases h : l.next a <;> simp [h]

/-- Detaching the head is unlinking it. -/
theorem popFront_eq_unlink {i : ι} {a : α} (hhead : l.head i = some a)
    (hprev : l.prev a = none) : l.popFront i = (some a, l.unlink i a) := by
  cases hn : l.next a <;> simp [popFront, unlink, hhead, hprev, hn]

/-- Detaching the head of a non-empty list returns it and leaves the rest. -/
theorem Rep.popFront (h : Rep l xs) {i : ι} {a : α} {post : List α}
    (hi : xs i = a :: post) :
    (l.popFront i).1 = some a ∧
      Rep (l.popFront i).2 (Function.update xs i post) := by
  rw [popFront_eq_unlink (by rw [h.head, hi]; rfl) (h.prev_head hi)]
  exact ⟨rfl, h.unlink ((List.nil_append (a :: post)).symm ▸ hi)⟩

/-! ## Reading a list off its links -/

/-- The elements met by following `next` from `a`, at most `fuel` of them. -/
def walk (l : Links ι α) : Nat → Option α → List α
  | 0, _ => []
  | _ + 1, none => []
  | fuel + 1, some a => a :: l.walk fuel (l.next a)

omit [DecidableEq ι] [DecidableEq α] in
theorem Rep.walk_head_take (h : Rep l xs) (i : ι) (fuel : Nat) :
    l.walk fuel (l.head i) = (xs i).take fuel := by
  have hsuffix : ∀ (fuel : Nat) (pre post : List α), xs i = pre ++ post →
      l.walk fuel post.head? = post.take fuel := by
    intro fuel
    induction fuel with
    | zero => exact fun _ _ _ => rfl
    | succ fuel ih =>
      intro pre post hi
      cases post with
      | nil => rfl
      | cons a post =>
        rw [List.head?_cons, walk, (h.link i pre a post hi).2,
          ih (pre ++ [a]) post (by simpa using hi), List.take_succ_cons]
  rw [h.head]
  exact hsuffix fuel [] (xs i) rfl

omit [DecidableEq ι] [DecidableEq α] in
/-- Following `next` from the head of a list reads off the list. -/
theorem Rep.walk_head (h : Rep l xs) {i : ι} {fuel : Nat} (hlen : (xs i).length ≤ fuel) :
    l.walk fuel (l.head i) = xs i := by
  rw [h.walk_head_take, List.take_of_length_le hlen]

/-- The same lists, read from their other end. -/
def flip (l : Links ι α) : Links ι α where
  next := l.prev
  prev := l.next
  head := l.tail
  tail := l.head

omit [DecidableEq ι] [DecidableEq α] in
theorem Rep.flip (h : Rep l xs) : Rep l.flip fun i => (xs i).reverse where
  head i := by
    rw [List.head?_reverse]
    exact h.tail i
  tail i := by
    rw [List.getLast?_reverse]
    exact h.head i
  link i pre a post hi := by
    have hdec : xs i = post.reverse ++ a :: pre.reverse := by
      have := congrArg List.reverse hi
      simpa using this
    obtain ⟨hprev, hnext⟩ := h.link i post.reverse a pre.reverse hdec
    refine ⟨?_, ?_⟩
    · show l.next a = pre.getLast?
      rw [hnext, List.head?_reverse]
    · show l.prev a = post.head?
      rw [hprev, List.getLast?_reverse]
  nodup i := List.nodup_reverse.mpr (h.nodup i)
  disjoint i j a hi hj := h.disjoint i j a (List.mem_reverse.mp hi) (List.mem_reverse.mp hj)
  free a ha := (h.free a fun i hi => ha i (List.mem_reverse.mpr hi)).symm

omit [DecidableEq ι] [DecidableEq α] in
/-- Following `prev` from the tail of a list reads it off backwards. -/
theorem Rep.walk_tail (h : Rep l xs) {i : ι} {fuel : Nat} (hlen : (xs i).length ≤ fuel) :
    l.flip.walk fuel (l.tail i) = (xs i).reverse :=
  h.flip.walk_head (by simpa using hlen)

/-! ## Membership and the links -/

/-- `a` is met when some list is followed from its head. -/
def Linked (l : Links ι α) (a : α) : Prop :=
  ∃ i fuel, a ∈ l.walk fuel (l.head i)

/-- `a` is the only element of list `i`. -/
def Alone (l : Links ι α) (i : ι) (a : α) : Prop :=
  l.head i = some a ∧ l.tail i = some a

namespace Rep

omit [DecidableEq ι] [DecidableEq α] in
theorem linked_iff (h : Rep l xs) {a : α} : l.Linked a ↔ ∃ i, a ∈ xs i := by
  constructor
  · rintro ⟨i, fuel, ha⟩
    rw [h.walk_head_take] at ha
    exact ⟨i, List.mem_of_mem_take ha⟩
  · rintro ⟨i, ha⟩
    refine ⟨i, (xs i).length, ?_⟩
    rwa [h.walk_head (Nat.le_refl _)]

omit [DecidableEq ι] [DecidableEq α] in
theorem alone_iff (h : Rep l xs) {i : ι} {a : α} : l.Alone i a ↔ xs i = [a] := by
  rw [Alone, h.head, h.tail]
  constructor
  · rintro ⟨hhead, htail⟩
    have hnodup := h.nodup i
    cases hi : xs i with
    | nil =>
      rw [hi] at hhead
      cases hhead
    | cons b post =>
      rw [hi] at hhead htail hnodup
      cases hhead
      cases post with
      | nil => rfl
      | cons c post =>
        -- the last element would occur twice
        rw [List.getLast?_cons_cons] at htail
        exact absurd (List.mem_of_getLast? htail) (List.nodup_cons.mp hnodup).1
  · intro hi
    rw [hi]
    exact ⟨rfl, rfl⟩

omit [DecidableEq ι] [DecidableEq α] in
/-- **What the links say**: an element has a link exactly if it is on a list with another
element. -/
theorem isEnqueued_iff (h : Rep l xs) {a : α} :
    l.isEnqueued a = true ↔ l.Linked a ∧ ∀ i, ¬ l.Alone i a := by
  rw [h.linked_iff]
  simp only [h.alone_iff]
  constructor
  · intro henq
    have hmem : ∃ i, a ∈ xs i := by
      by_contra hno
      rw [h.not_isEnqueued fun i hi => hno ⟨i, hi⟩] at henq
      cases henq
    refine ⟨hmem, fun i hi => ?_⟩
    obtain ⟨hprev, hnext⟩ := h.link i [] a [] hi
    simp [isEnqueued, hprev, hnext] at henq
  · rintro ⟨⟨i, ha⟩, halone⟩
    obtain ⟨pre, post, hi⟩ := List.append_of_mem ha
    obtain ⟨hprev, hnext⟩ := h.link i pre a post hi
    rw [isEnqueued, hprev, hnext]
    cases post with
    | cons b post => rfl
    | nil =>
      rcases List.eq_nil_or_concat pre with rfl | ⟨pre, b, rfl⟩
      · exact absurd hi (halone i)
      · simp

omit [DecidableEq ι] [DecidableEq α] in
/-- What has no link and is not alone is on no list. -/
theorem not_mem_of_not_isEnqueued (h : Rep l xs) {a : α} (halone : ∀ i, ¬ l.Alone i a)
    (hfree : l.isEnqueued a = false) (i : ι) : a ∉ xs i := by
  intro ha
  have henq : l.isEnqueued a = true := h.isEnqueued_iff.mpr ⟨h.linked_iff.mpr ⟨i, ha⟩, halone⟩
  rw [hfree] at henq
  cases henq

omit [DecidableEq ι] [DecidableEq α] in
/-- The links tell membership if and only if no list has exactly one element. -/
theorem isEnqueued_exact_iff (h : Rep l xs) :
    (∀ a, l.isEnqueued a = true ↔ l.Linked a) ↔ ∀ i a, ¬ l.Alone i a := by
  constructor
  · intro hexact i a halone
    have hlinked : l.Linked a := h.linked_iff.mpr ⟨i, by simp [h.alone_iff.mp halone]⟩
    exact (h.isEnqueued_iff.mp ((hexact a).mpr hlinked)).2 i halone
  · intro hnone a
    rw [h.isEnqueued_iff]
    exact and_iff_left fun i => hnone i a

/-- An element whose links, or whose place at the ends of list `i`, say that it is linked is
on a list, and unlinking it through list `i` takes it off the one it is on. -/
theorem unlink_checked (h : Rep l xs) {i : ι} {a : α}
    (hprev : l.head i = some a ∨ (l.prev a).isSome) (hnext : l.tail i = some a ∨ (l.next a).isSome) :
    ∃ j, a ∈ xs j ∧ l.unlink i a = l.unlink j a := by
  have hhead : l.head i = some a → a ∈ xs i := fun hhead =>
    List.mem_of_mem_head? ((h.head i).symm.trans hhead)
  obtain ⟨j, hj⟩ : ∃ j, a ∈ xs j := by
    by_contra hno
    obtain ⟨hnone, hnone'⟩ := h.free a fun j hj => hno ⟨j, hj⟩
    rcases hprev with hhead' | hsome
    · exact hno ⟨i, hhead hhead'⟩
    · rw [hnone'] at hsome
      cases hsome
  refine ⟨j, hj, ?_⟩
  by_cases hij : i = j
  · rw [hij]
  · -- `a` has both neighbours, so the ends of the lists are not looked at
    obtain ⟨p, hp⟩ : ∃ p, l.prev a = some p := by
      refine Option.isSome_iff_exists.mp (hprev.resolve_left fun hhead' => hij ?_)
      exact h.disjoint i j a (hhead hhead') hj
    obtain ⟨n, hn⟩ : ∃ n, l.next a = some n := by
      refine Option.isSome_iff_exists.mp (hnext.resolve_left fun htail => hij ?_)
      exact h.disjoint i j a (List.mem_of_getLast? ((h.tail i).symm.trans htail)) hj
    simp only [Links.unlink, hp, hn]

end Rep

end Links

end Cortos.Lib
