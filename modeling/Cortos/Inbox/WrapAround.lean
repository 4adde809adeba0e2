import Mathlib.Data.Finset.Card
import Mathlib.Data.Finset.Range
import Cortos.Inbox.Sequential

/-!
# The counters of the ring buffer at the ends of their range

`head`, `tail` and the sequences run through all values of `std::size_t`, and `push` and
`pop` subtract two of them as `intptr_t`.

- While the ring is neither full at a `push` nor empty at a `pop`, the two are equal and
  nothing goes wrong, whatever they are.
- Otherwise they differ, and if they are on different sides of `2 ^ (w - 1)` the difference
  is no `intptr_t` (`Holds.push_overflows`, `Holds.pop_overflows`).
- If `head` has wrapped and `tail` has not, `approx_size` is 0 (`Holds.approxSize_wrapped`).

The shortest sequence of calls with one of these has `2 ^ w - N + 1` calls
(`wrap_safe_iff`).
-/

namespace Cortos

namespace Inbox

variable {α : Type} {w k r : Nat} {b : MpscRingBuffer α} {q : List α}

/-! ## What is observed of the ring -/

namespace MpscRingBuffer

/-- `approx_size`. -/
def approxSize (b : MpscRingBuffer α) : Nat :=
  if b.tail ≤ b.head then b.head - b.tail else 0

/-- The number of cells with an element. -/
def stored (k : Nat) (b : MpscRingBuffer α) : Nat :=
  ((Finset.range (2 ^ k)).filter fun i => (b.storage i).isSome).card

/-- The assertion of `Scheduler::reset` about the inbox. -/
def resetAccepts (b : MpscRingBuffer α) : Bool :=
  b.approxSize == 0

/-- No call of the sequence faults, and after each of them `approx_size` is the number of
elements, so that `Scheduler::reset` accepts exactly the empty ring. -/
def WrapSafe (w k : Nat) : MpscRingBuffer α → List (Call α) → Prop
  | _, [] => True
  | b, c :: cs => ∃ response b', b.call w k c = .ok (response, b') ∧
    b'.approxSize = b'.stored k ∧ (b'.resetAccepts = true ↔ b'.stored k = 0) ∧ WrapSafe w k b' cs

end MpscRingBuffer

namespace Holds

/-- The cells with an element are those of the queue. -/
theorem stored_eq (h : Holds w k r b q) : b.stored k = q.length := by
  have hlen := h.length_le
  have hcells : ((Finset.range (2 ^ k)).filter fun i => (b.storage i).isSome) =
      (Finset.range q.length).image fun i => slot k (r + i) := by
    ext j
    simp only [Finset.mem_filter, Finset.mem_range, Finset.mem_image]
    constructor
    · rintro ⟨hj, hsome⟩
      obtain ⟨n, hrn, hn, hslot⟩ := exists_slot_eq k r j
      have hj' : slot k j = j := by rw [slot_eq_mod, Nat.mod_eq_of_lt hj]
      have hcell : slot k (r + (n - r)) = j := by
        rw [Nat.add_sub_cancel' hrn, hslot, hj']
      refine ⟨n - r, Nat.lt_of_not_le fun hle => ?_, hcell⟩
      have hfree := (h.free (n - r) hle (by omega)).2
      rw [hcell] at hfree
      rw [hfree] at hsome
      cases hsome
    · rintro ⟨i, hi, rfl⟩
      refine ⟨by rw [slot_eq_mod]; exact Nat.mod_lt _ (Nat.two_pow_pos k), ?_⟩
      rw [(h.stored i hi).2, List.getElem?_eq_getElem hi]
      rfl
  rw [MpscRingBuffer.stored, hcells, Finset.card_image_of_injOn, Finset.card_range]
  intro i hi j hj heq
  by_contra hne
  exact slot_add_ne r ((Finset.mem_range.mp hi).trans_le hlen)
    ((Finset.mem_range.mp hj).trans_le hlen) hne heq

/-- While no counter has wrapped, `approx_size` is exact. -/
theorem approxSize_eq (h : Holds w k r b q) (hr : r + q.length < 2 ^ w) :
    b.approxSize = q.length := by
  rw [MpscRingBuffer.approxSize, h.head_eq, h.tail_eq, sizeT_of_lt hr, sizeT_of_lt (by omega),
    if_pos (Nat.le_add_right _ _), Nat.add_sub_cancel_left]

/-- When `head` has wrapped and `tail` has not, `approx_size` is 0. -/
theorem approxSize_wrapped (h : Holds w k r b q) (hr : r < 2 ^ w) (hq : 2 ^ w ≤ r + q.length)
    (hlen : q.length < 2 ^ w) : b.approxSize = 0 := by
  have hhead : sizeT w (r + q.length) = r + q.length - 2 ^ w := by
    rw [sizeT, Nat.mod_eq_sub_mod hq, Nat.mod_eq_of_lt (by omega)]
  rw [MpscRingBuffer.approxSize, h.head_eq, h.tail_eq, hhead, sizeT_of_lt hr]
  exact if_neg (by omega)

end Holds

/-! ## Overflow -/

/-- Counters close to each other on different sides of half the range. -/
theorem sequenceDiff_overflows {sequence position : Nat} (hw : 1 ≤ w)
    (hs : sequence < 2 ^ (w - 1)) (hp : 2 ^ (w - 1) ≤ position)
    (hclose : position ≤ sequence + 2 ^ (w - 1)) :
    sequenceDiff w sequence position = .error .signedOverflow := by
  have hdouble : 2 ^ (w - 1) * 2 = 2 ^ w := Nat.two_pow_pred_mul_two (by omega)
  unfold sequenceDiff
  rw [intptr_of_lt hs, show intptr w position = (position : Int) - (2 ^ w : Nat) from
    if_neg (Nat.not_lt_of_le hp)]
  exact if_neg fun hfits => by omega

namespace Holds

/-- A `push` into a full ring when `head` has come to half the range. -/
theorem push_overflows (h : Holds w k r b q) (hk : 1 ≤ k) (hkw : k < w)
    (hfull : q.length = 2 ^ k) (hr : r + 2 ^ k = 2 ^ (w - 1)) (value : α) (failures : Nat) :
    b.call w k (.push value failures) = .error .signedOverflow := by
  have hpow : 2 ≤ 2 ^ k := Nat.le_self_pow (by omega) 2
  have hhalf : 2 ^ (w - 1) < 2 ^ w := Nat.pow_lt_pow_right (by omega) (by omega)
  obtain ⟨hhead, hseq⟩ := h.sequence_of_full hkw.le hfull
  have hdiff : sequenceDiff w (sizeT w (r + 1)) (sizeT w (r + 2 ^ k)) = .error .signedOverflow := by
    rw [sizeT_of_lt (by omega), sizeT_of_lt (by omega)]
    exact sequenceDiff_overflows (by omega) (by omega) (by omega) (by omega)
  have hpush : b.push w k value failures = .error .signedOverflow := by
    unfold MpscRingBuffer.push
    simp only [hseq]
    rw [hhead]
    simp only [hdiff]
    rfl
  rw [MpscRingBuffer.call, hpush]
  rfl

/-- A `pop` from an empty ring when `tail` is about to come to half the range. -/
theorem pop_overflows (h : Holds w k r b []) (hkw : k < w) (hr : r + 1 = 2 ^ (w - 1)) :
    b.call w k .pop = .error .signedOverflow := by
  have hhalf : 2 ^ (w - 1) < 2 ^ w := Nat.pow_lt_pow_right (by omega) (by omega)
  obtain ⟨hseq, hnext⟩ := h.sequence_of_empty hkw.le
  have hdiff : sequenceDiff w (sizeT w r) (sizeT w (r + 1)) = .error .signedOverflow := by
    rw [sizeT_of_lt (by omega), sizeT_of_lt (by omega)]
    exact sequenceDiff_overflows (by omega) (by omega) (by omega) (by omega)
  have hpop : b.pop w k = .error .signedOverflow := by
    simp only [MpscRingBuffer.pop, hseq, hnext, hdiff]
    rfl
  rw [MpscRingBuffer.call, hpop]
  rfl

end Holds

/-! ## Long sequences of calls -/

/-- The calls lead from `b` to `b'`. -/
def MpscRingBuffer.RunsTo (w k : Nat) (b : MpscRingBuffer α) (cs : List (Call α))
    (b' : MpscRingBuffer α) : Prop :=
  ∃ responses, b.run w k cs = .ok (responses, b')

namespace MpscRingBuffer.RunsTo

variable {b' b'' : MpscRingBuffer α} {c : Call α} {cs ds : List (Call α)}

theorem nil (b : MpscRingBuffer α) : RunsTo w k b [] b :=
  ⟨[], rfl⟩

theorem cons {response : Response α} (hcall : b.call w k c = .ok (response, b'))
    (h : RunsTo w k b' cs b'') : RunsTo w k b (c :: cs) b'' := by
  obtain ⟨responses, hrun⟩ := h
  refine ⟨response :: responses, ?_⟩
  simp only [MpscRingBuffer.run, hcall, ok_bind, hrun]
  rfl

/-- The first call of a sequence. -/
theorem cons_inv (h : RunsTo w k b (c :: cs) b'') :
    ∃ response b', b.call w k c = .ok (response, b') ∧ RunsTo w k b' cs b'' := by
  obtain ⟨responses, hrun⟩ := h
  rw [MpscRingBuffer.run] at hrun
  obtain ⟨⟨response, b'⟩, hcall, hrun⟩ := bind_ok.mp hrun
  obtain ⟨⟨responses', b₂⟩, hrun', heq⟩ := bind_ok.mp hrun
  cases heq
  exact ⟨response, b', hcall, responses', hrun'⟩

theorem append (h : RunsTo w k b cs b') (h' : RunsTo w k b' ds b'') :
    RunsTo w k b (cs ++ ds) b'' := by
  induction cs generalizing b with
  | nil =>
    obtain ⟨_, hrun⟩ := h
    cases hrun
    exact h'
  | cons c cs ih =>
    obtain ⟨response, b₁, hcall, hrest⟩ := h.cons_inv
    exact .cons hcall (ih hrest)

/-- A fault after some calls. -/
theorem not_wrapSafe {fault : CallFault} (h : RunsTo w k b cs b')
    (hfault : b'.call w k c = .error fault) : ¬ b.WrapSafe w k (cs ++ [c]) := by
  induction cs generalizing b with
  | nil =>
    obtain ⟨_, hrun⟩ := h
    cases hrun
    rintro ⟨response, b', hcall, -⟩
    rw [hfault] at hcall
    cases hcall
  | cons d cs ih =>
    obtain ⟨response, b₁, hcall, hrest⟩ := h.cons_inv
    rintro ⟨response', b₁', hcall', -, -, hsafe⟩
    rw [hcall] at hcall'
    cases hcall'
    exact ih hrest hsafe

end MpscRingBuffer.RunsTo

/-- Elements go in and come out one at a time. -/
def rounds (value : α) : Nat → List (Call α)
  | 0 => []
  | n + 1 => .push value 0 :: .pop :: rounds value n

theorem length_rounds (value : α) (n : Nat) : (rounds value n).length = 2 * n := by
  induction n with
  | zero => rfl
  | succ n ih =>
    rw [rounds, List.length_cons, List.length_cons, ih]
    omega

namespace Holds

theorem call_push (h : Holds w k r b q) (hkw : k ≤ w) (hlt : q.length < 2 ^ k) (value : α) :
    ∃ b', b.call w k (.push value 0) = .ok (.pushed true, b') ∧
      Holds w k r b' (q ++ [value]) := by
  refine ⟨b.publish w k value, ?_, h.publish hkw hlt value⟩
  rw [MpscRingBuffer.call, h.push_of_room hkw hlt]
  rfl

theorem call_pop {value : α} (h : Holds w k r b (value :: q)) (hkw : k ≤ w) :
    ∃ b', b.call w k .pop = .ok (.popped (some value), b') ∧ Holds w k (r + 1) b' q := by
  obtain ⟨hpop, hnext⟩ := h.pop_cons hkw
  refine ⟨b.release w k, ?_, hnext⟩
  rw [MpscRingBuffer.call, hpop]
  rfl

/-- Rounds never compare different counters, so they go on for ever. -/
theorem rounds (h : Holds w k r b []) (hkw : k ≤ w) (value : α) (n : Nat) :
    ∃ b', b.RunsTo w k (Inbox.rounds value n) b' ∧ Holds w k (r + n) b' [] := by
  induction n generalizing b r with
  | zero => exact ⟨b, .nil b, h⟩
  | succ n ih =>
    obtain ⟨b₁, hpush, h₁⟩ := h.call_push hkw (Nat.two_pow_pos k) value
    obtain ⟨b₂, hpop, h₂⟩ := h₁.call_pop hkw
    obtain ⟨b₃, hrun, h₃⟩ := ih h₂
    refine ⟨b₃, .cons hpush (.cons hpop hrun), ?_⟩
    rwa [Nat.add_assoc, Nat.add_comm 1 n] at h₃

/-- The ring is filled up. -/
theorem pushes (h : Holds w k r b q) (hkw : k ≤ w) (value : α) (n : Nat)
    (hn : q.length + n ≤ 2 ^ k) :
    ∃ b', b.RunsTo w k (List.replicate n (.push value 0)) b' ∧
      Holds w k r b' (q ++ List.replicate n value) := by
  induction n generalizing b q with
  | zero =>
    refine ⟨b, .nil b, ?_⟩
    rwa [List.replicate_zero, List.append_nil]
  | succ n ih =>
    obtain ⟨b₁, hpush, h₁⟩ := h.call_push hkw (by omega) value
    obtain ⟨b₂, hrun, h₂⟩ := ih h₁ (by rw [List.length_append, List.length_singleton]; omega)
    refine ⟨b₂, .cons hpush hrun, ?_⟩
    rwa [List.append_assoc, List.singleton_append, ← List.replicate_succ] at h₂

end Holds

/-- The shortest way to an overflow: all but `N` of the elements that bring `head` to half the
range go in and come out, the last `N` stay. -/
def shortestOverflow (w k : Nat) (value : α) : List (Call α) :=
  rounds value (2 ^ (w - 1) - 2 ^ k) ++ List.replicate (2 ^ k) (.push value 0)

theorem length_shortestOverflow (hkw : k < w) (value : α) :
    (shortestOverflow w k value).length = 2 ^ w - 2 ^ k := by
  have hdouble : 2 ^ (w - 1) * 2 = 2 ^ w := Nat.two_pow_pred_mul_two (by omega)
  have hle : 2 ^ k ≤ 2 ^ (w - 1) := Nat.pow_le_pow_right (by omega) (by omega)
  rw [shortestOverflow, List.length_append, length_rounds, List.length_replicate]
  omega

theorem shortestOverflow_overflows (hk : 1 ≤ k) (hkw : k < w) (value : α) :
    ∃ b, MpscRingBuffer.initial.RunsTo w k (shortestOverflow w k value) b ∧
      b.call w k (.push value 0) = .error .signedOverflow := by
  have hle : 2 ^ k ≤ 2 ^ (w - 1) := Nat.pow_le_pow_right (by omega) (by omega)
  obtain ⟨b₁, hrounds, h₁⟩ := (Holds.initial hkw.le).rounds hkw.le value (2 ^ (w - 1) - 2 ^ k)
  obtain ⟨b₂, hpushes, h₂⟩ := h₁.pushes hkw.le value (2 ^ k) (by rw [List.length_nil]; omega)
  refine ⟨b₂, hrounds.append hpushes, h₂.push_overflows hk hkw ?_ (by omega) value 0⟩
  rw [List.nil_append, List.length_replicate]

/-! ## How long the counters are safe -/

theorem Holds.wrapSafe (h : Holds w k r b q) (hk : 1 ≤ k) (hkw : k < w) (cs : List (Call α))
    (hn : 2 * r + q.length + cs.length ≤ 2 ^ w - 2 ^ k) : b.WrapSafe w k cs := by
  induction cs generalizing b q r with
  | nil => trivial
  | cons c cs ih =>
    have hpos := Nat.two_pow_pos k
    rw [List.length_cons] at hn
    obtain ⟨hfull, hempty⟩ := counters_below_half (n := q.length) hk hkw (r := r) (by omega)
    obtain ⟨r₁, b₁, hcall, h₁, -, hle⟩ := h.call hk hkw.le hfull (fun _ => hempty) c
    have hexact : b₁.approxSize = b₁.stored k := by
      rw [h₁.stored_eq, h₁.approxSize_eq (by omega)]
    refine ⟨_, b₁, hcall, hexact, ?_, ih h₁ (by omega)⟩
    rw [MpscRingBuffer.resetAccepts, hexact, beq_iff_eq]

/-- **The counters are wrap-safe for `2 ^ w - N` calls, and no longer**: in sequences of at
most `n` calls no difference overflows and `approx_size` is exact after every call if and
only if `n` is at most that. -/
theorem wrap_safe_iff (α : Type) [Nonempty α] {w k n : Nat} (hk : 1 ≤ k) (hkw : k + 2 ≤ w) :
    (∀ cs : List (Call α), cs.length ≤ n → MpscRingBuffer.initial.WrapSafe w k cs) ↔
      n ≤ 2 ^ w - 2 ^ k := by
  constructor
  · intro h
    by_contra hn
    obtain ⟨value⟩ := ‹Nonempty α›
    obtain ⟨b, hrun, hfault⟩ := shortestOverflow_overflows hk (show k < w by omega) value
    have hlength := length_shortestOverflow (show k < w by omega) value
    refine hrun.not_wrapSafe hfault (h _ ?_)
    rw [List.length_append, List.length_singleton, hlength]
    omega
  · intro hn cs hcs
    exact (Holds.initial (by omega)).wrapSafe hk (by omega) cs (by rw [List.length_nil]; omega)

/-- The theorem at two cells of 32-bit counters. -/
theorem wrap_safe_two_cells : (1 ≤ 1 ∧ 1 + 2 ≤ 32) ∧
    (MpscRingBuffer.initial : MpscRingBuffer Nat).WrapSafe 32 1
      [.push 7 0, .push 8 0, .push 9 0, .pop, .pop, .pop] :=
  ⟨by decide, (wrap_safe_iff Nat (w := 32) (k := 1) (n := 6) (by decide) (by decide)).mpr
    (by decide) _ (by decide)⟩

/-- The inbox of a scheduler, with 64 cells, on a 32-bit target: differences overflow at a
`push` into the full ring and at a `pop` from the empty one, and when `head` has wrapped
`approx_size` is 0 although an element is stored, so `Scheduler::reset` accepts it. -/
theorem counters_not_wrap_safe :
    (∃ cs, ∃ b : MpscRingBuffer Nat, MpscRingBuffer.initial.RunsTo 32 6 cs b ∧
      b.call 32 6 (.push 0 0) = .error .signedOverflow) ∧
    (∃ cs, ∃ b : MpscRingBuffer Nat, MpscRingBuffer.initial.RunsTo 32 6 cs b ∧
      b.call 32 6 .pop = .error .signedOverflow) ∧
    ∃ cs, ∃ b : MpscRingBuffer Nat, MpscRingBuffer.initial.RunsTo 32 6 cs b ∧
      b.stored 6 = 1 ∧ b.approxSize = 0 ∧ b.resetAccepts = true := by
  have hempty : Holds (α := Nat) 32 6 0 MpscRingBuffer.initial [] := .initial (by decide)
  refine ⟨?_, ?_, ?_⟩
  · obtain ⟨b, hrun, hfault⟩ := shortestOverflow_overflows (w := 32) (k := 6)
      (by decide) (by decide) (0 : Nat)
    exact ⟨_, b, hrun, hfault⟩
  · obtain ⟨b, hrun, h⟩ := hempty.rounds (by decide) 0 (2 ^ 31 - 1)
    exact ⟨_, b, hrun, h.pop_overflows (by decide) (by decide)⟩
  · obtain ⟨b, hrun, h⟩ := hempty.rounds (by decide) 0 (2 ^ 32 - 1)
    obtain ⟨b', hpush, h'⟩ := h.call_push (by decide) (by decide) 0
    have hsize : b'.approxSize = 0 := h'.approxSize_wrapped (by decide) (by decide) (by decide)
    refine ⟨_, b', hrun.append (.cons hpush (.nil b')), h'.stored_eq, hsize, ?_⟩
    rw [MpscRingBuffer.resetAccepts, hsize]
    rfl

end Inbox

end Cortos
