import Cortos.Inbox.RingInvariant
import Cortos.Kernel.Basic

/-!
# The ring buffer as a queue, one call after the other

Whole calls of `push` and `pop` on machine integers: `std::size_t` has `w` bits,
`intptr_t` is its signed counterpart, and the capacity is `N = 2 ^ k`. With no
other call in progress `position` always holds the value of `head`, so a turn of
`push`'s loop that neither claims nor returns finds what it found before.

- `Holds.call`: one call keeps the ring a queue of capacity `N`. The counters may have
  wrapped; only a `push` into a full ring and a `pop` from an empty one depend on where
  they are.
- `Holds.run`: so does any sequence of calls that is not too long.
- `fifo_iff`: the ring is a queue for every capacity but `N = 1`.
-/

namespace Cortos

namespace Inbox

variable {α : Type}

/-! ## The code -/

/-- What the members of `MpscRingBuffer` hold. A cell whose storage has no element
has `storage = none`. -/
structure MpscRingBuffer (α : Type) where
  head : Nat
  tail : Nat
  sequence : Nat → Nat
  storage : Nat → Option α

/-- How a call can go wrong. -/
inductive CallFault where
  /-- A difference of two `intptr_t` that is no `intptr_t`. -/
  | signedOverflow
  /-- The loop of `push` comes back to where it was. -/
  | spins
  /-- `item()` of a cell without an element. -/
  | noElement
  deriving DecidableEq

/-- A `std::size_t`. -/
def sizeT (w n : Nat) : Nat := n % 2 ^ w

/-- `static_cast<intptr_t>` of a `std::size_t`. -/
def intptr (w n : Nat) : Int :=
  if n < 2 ^ (w - 1) then n else (n : Int) - (2 ^ w : Nat)

/-- `static_cast<intptr_t>(sequence) - static_cast<intptr_t>(position)`. -/
def sequenceDiff (w sequence position : Nat) : Except CallFault Int :=
  let diff := intptr w sequence - intptr w position
  if -(2 ^ (w - 1) : Nat) ≤ diff ∧ diff < (2 ^ (w - 1) : Nat) then .ok diff
  else .error .signedOverflow

namespace MpscRingBuffer

/-- The constructor: cell `i` has sequence `i`. -/
def initial : MpscRingBuffer α where
  head := 0
  tail := 0
  sequence := id
  storage _ := none

/-- What `push` does once it has claimed a position. -/
def publish (w k : Nat) (b : MpscRingBuffer α) (value : α) : MpscRingBuffer α :=
  let position := b.head
  { b with
    head := sizeT w (position + 1)
    storage := Function.update b.storage (slot k position) (some value)
    sequence := Function.update b.sequence (slot k position) (sizeT w (position + 1)) }

/-- `push`; the weak compare-and-swap fails `failures` times without a reason. -/
def push (w k : Nat) (b : MpscRingBuffer α) (value : α) (failures : Nat) :
    Except CallFault (Bool × MpscRingBuffer α) := do
  let position := b.head
  let diff ← sequenceDiff w (b.sequence (slot k position)) position
  if diff = 0 then
    match failures with
    | 0 => return (true, b.publish w k value)
    | failures + 1 => b.push w k value failures
  else if diff < 0 then return (false, b)
  else throw .spins

/-- What `pop` does to the ring once it has found an element. -/
def release (w k : Nat) (b : MpscRingBuffer α) : MpscRingBuffer α :=
  let position := b.tail
  { b with
    tail := sizeT w (position + 1)
    storage := Function.update b.storage (slot k position) none
    sequence := Function.update b.sequence (slot k position) (sizeT w (position + 2 ^ k)) }

/-- `pop`. -/
def pop (w k : Nat) (b : MpscRingBuffer α) : Except CallFault (Option α × MpscRingBuffer α) := do
  let position := b.tail
  let diff ← sequenceDiff w (b.sequence (slot k position)) (sizeT w (position + 1))
  if diff = 0 then
    match b.storage (slot k position) with
    | some item => return (some item, b.release w k)
    | none => throw .noElement
  else return (none, b)

end MpscRingBuffer

/-! ## Sequences of calls -/

/-- A call of the ring. -/
inductive Call (α : Type) where
  | push (value : α) (failures : Nat)
  | pop

/-- What a call returns; `pop` returns `false` or `true` and the element. -/
inductive Response (α : Type) where
  | pushed (ok : Bool)
  | popped (out : Option α)
  deriving DecidableEq

/-- The call returned `false`. -/
def Response.isFalse : Response α → Bool
  | .pushed ok => !ok
  | .popped out => out.isNone

namespace MpscRingBuffer

def call (w k : Nat) (b : MpscRingBuffer α) :
    Call α → Except CallFault (Response α × MpscRingBuffer α)
  | .push value failures => (b.push w k value failures).map fun r => (.pushed r.1, r.2)
  | .pop => (b.pop w k).map fun r => (.popped r.1, r.2)

/-- Calls one after the other, with what they return. -/
def run (w k : Nat) : MpscRingBuffer α → List (Call α) →
    Except CallFault (List (Response α) × MpscRingBuffer α)
  | b, [] => .ok ([], b)
  | b, c :: cs => do
    let (response, b) ← b.call w k c
    let (responses, b) ← b.run w k cs
    return (response :: responses, b)

end MpscRingBuffer

/-! ## The queue -/

namespace Fifo

/-- A call on a queue of capacity `N`. -/
def call (N : Nat) (q : List α) : Call α → Response α × List α
  | .push value _ => if q.length < N then (.pushed true, q ++ [value]) else (.pushed false, q)
  | .pop => (.popped q.head?, q.tail)

def run (N : Nat) : List α → List (Call α) → List (Response α) × List α
  | q, [] => ([], q)
  | q, c :: cs =>
    let (response, q) := call N q c
    let (responses, q) := run N q cs
    (response :: responses, q)

end Fifo

/-! ## Machine arithmetic -/

theorem sizeT_of_lt {w n : Nat} (h : n < 2 ^ w) : sizeT w n = n :=
  Nat.mod_eq_of_lt h

theorem sizeT_add (w n m : Nat) : sizeT w (sizeT w n + m) = sizeT w (n + m) :=
  Nat.mod_add_mod n (2 ^ w) m

/-- The cell of a position is that of the unbounded counter it stands for. -/
theorem slot_sizeT {w k : Nat} (hkw : k ≤ w) (n : Nat) : slot k (sizeT w n) = slot k n := by
  rw [slot_eq_mod, slot_eq_mod, sizeT, Nat.mod_mod_of_dvd n (Nat.pow_dvd_pow 2 hkw)]

theorem intptr_of_lt {w n : Nat} (h : n < 2 ^ (w - 1)) : intptr w n = n :=
  if_pos h

/-- Counters below half the range. -/
theorem sequenceDiff_of_lt {w sequence position : Nat} (hs : sequence < 2 ^ (w - 1))
    (hp : position < 2 ^ (w - 1)) :
    sequenceDiff w sequence position = .ok ((sequence : Int) - position) := by
  unfold sequenceDiff
  rw [intptr_of_lt hs, intptr_of_lt hp]
  exact if_pos ⟨by omega, by omega⟩

/-- Equal counters, wherever they are. -/
theorem sequenceDiff_self (w n : Nat) : sequenceDiff w n n = .ok 0 := by
  have hpos := Nat.two_pow_pos (w - 1)
  unfold sequenceDiff
  rw [sub_self]
  exact if_pos ⟨by omega, by omega⟩

/-- A cell whose sequence is `head` is taken to be free. -/
theorem MpscRingBuffer.push_of_sequence {w k : Nat} {b : MpscRingBuffer α}
    (hseq : b.sequence (slot k b.head) = b.head) (value : α) (failures : Nat) :
    b.push w k value failures = .ok (true, b.publish w k value) := by
  have hdiff : sequenceDiff w (b.sequence (slot k b.head)) b.head = .ok 0 := by
    rw [hseq, sequenceDiff_self]
  -- a failure of the compare-and-swap leads to the same turn of the loop again
  induction failures with
  | zero =>
    unfold MpscRingBuffer.push
    simp only [hdiff, ok_bind, if_true]
    rfl
  | succ failures ih =>
    unfold MpscRingBuffer.push
    simp only [hdiff, ok_bind, if_true]
    exact ih

/-- A call that returns `false` changes nothing. -/
theorem MpscRingBuffer.call_false {w k : Nat} {b b' : MpscRingBuffer α} {c : Call α}
    {response : Response α} (h : b.call w k c = .ok (response, b'))
    (hfalse : response.isFalse = true) : b' = b := by
  cases c with
  | push value failures =>
    simp only [call] at h
    cases hpush : b.push w k value failures with
    | error e =>
      rw [hpush] at h
      cases h
    | ok r =>
      rw [hpush] at h
      cases h
      induction failures with
      | zero =>
        unfold push at hpush
        obtain ⟨diff, -, hpush⟩ := bind_ok.mp hpush
        split_ifs at hpush
        all_goals cases hpush
        · cases hfalse
        · rfl
      | succ failures ih =>
        unfold push at hpush
        obtain ⟨diff, -, hpush⟩ := bind_ok.mp hpush
        split_ifs at hpush
        · exact ih hpush
        all_goals cases hpush
        rfl
  | pop =>
    simp only [call] at h
    cases hpop : b.pop w k with
    | error e =>
      rw [hpop] at h
      cases h
    | ok r =>
      rw [hpop] at h
      cases h
      obtain ⟨diff, -, hpop⟩ := bind_ok.mp hpop
      split_ifs at hpop
      · cases hitem : b.storage (slot k b.tail) with
        | none =>
          rw [hitem] at hpop
          cases hpop
        | some item =>
          rw [hitem] at hpop
          cases hpop
          cases hfalse
      · cases hpop
        rfl

/-! ## The ring represents a queue -/

theorem slot_add_ne {k i j : Nat} (r : Nat) (hi : i < 2 ^ k) (hj : j < 2 ^ k) (hne : i ≠ j) :
    slot k (r + i) ≠ slot k (r + j) := by
  intro heq
  have := slot_inj (r := r) (by omega) (by omega) (by omega) (by omega) heq
  omega

/-- The ring holds the queue `q`: its cells from `tail` on are the elements of
`q`, published, and the others are free for the producer of their next turn. -/
structure Represents (k : Nat) (b : MpscRingBuffer α) (q : List α) : Prop where
  head_eq : b.head = b.tail + q.length
  length_le : q.length ≤ 2 ^ k
  stored : ∀ i, i < q.length →
    b.sequence (slot k (b.tail + i)) = b.tail + i + 1 ∧ b.storage (slot k (b.tail + i)) = q[i]?
  free : ∀ i, q.length ≤ i → i < 2 ^ k →
    b.sequence (slot k (b.tail + i)) = b.tail + i

/-- The ring holds the queue `q`, when `r` elements have left it: `tail` and `head` are the
unbounded counters `r` and `r + q.length` in `w` bits, and so are the sequences. -/
structure Holds (w k r : Nat) (b : MpscRingBuffer α) (q : List α) : Prop where
  head_eq : b.head = sizeT w (r + q.length)
  tail_eq : b.tail = sizeT w r
  length_le : q.length ≤ 2 ^ k
  stored : ∀ i, i < q.length → b.sequence (slot k (r + i)) = sizeT w (r + i + 1) ∧
    b.storage (slot k (r + i)) = q[i]?
  free : ∀ i, q.length ≤ i → i < 2 ^ k → b.sequence (slot k (r + i)) = sizeT w (r + i) ∧
    b.storage (slot k (r + i)) = none

theorem Holds.initial {w k : Nat} (hkw : k ≤ w) :
    Holds (α := α) w k 0 MpscRingBuffer.initial [] where
  head_eq := (Nat.zero_mod _).symm
  tail_eq := (Nat.zero_mod _).symm
  length_le := Nat.zero_le _
  stored i hi := absurd hi (Nat.not_lt_zero i)
  free i _ hi := by
    refine ⟨?_, rfl⟩
    show slot k (0 + i) = sizeT w (0 + i)
    rw [slot_eq_mod, Nat.zero_add, Nat.mod_eq_of_lt hi,
      sizeT_of_lt (hi.trans_le (Nat.pow_le_pow_right (by omega) hkw))]

namespace Holds

variable {w k r : Nat} {b : MpscRingBuffer α} {q : List α}

/-- Before a counter wraps. -/
theorem represents (h : Holds w k r b q) (hr : r + 2 ^ k < 2 ^ w) : Represents k b q := by
  have hlen := h.length_le
  have htail : b.tail = r := by rw [h.tail_eq, sizeT_of_lt (by omega)]
  refine ⟨?_, hlen, fun i hi => ?_, fun i hi hik => ?_⟩
  · rw [htail, h.head_eq, sizeT_of_lt (by omega)]
  · have hstored := h.stored i hi
    rwa [sizeT_of_lt (by omega), ← htail] at hstored
  · have hfree := (h.free i hi hik).1
    rwa [sizeT_of_lt (by omega), ← htail] at hfree

/-- The position that `push` claims joins the queue. -/
theorem publish (h : Holds w k r b q) (hkw : k ≤ w) (hlt : q.length < 2 ^ k) (value : α) :
    Holds w k r (b.publish w k value) (q ++ [value]) := by
  have hslot : slot k b.head = slot k (r + q.length) := by rw [h.head_eq, slot_sizeT hkw]
  have hnext : sizeT w (b.head + 1) = sizeT w (r + q.length + 1) := by rw [h.head_eq, sizeT_add]
  have hlength : (q ++ [value]).length = q.length + 1 := List.length_append
  refine ⟨?_, h.tail_eq, ?_, fun i hi => ?_, fun i hi hik => ?_⟩
  · rw [hlength]
    exact hnext
  · rw [hlength]
    exact hlt
  · rw [hlength] at hi
    show Function.update b.sequence (slot k b.head) (sizeT w (b.head + 1)) (slot k (r + i)) = _ ∧
      Function.update b.storage (slot k b.head) (some value) (slot k (r + i)) = _
    rw [hslot, hnext]
    rcases Nat.lt_succ_iff_lt_or_eq.mp hi with hold | rfl
    · have hne := slot_add_ne r (by omega) hlt (Nat.ne_of_lt hold)
      rw [Function.update_of_ne hne, Function.update_of_ne hne, List.getElem?_append_left hold]
      exact h.stored i hold
    · simp
  · rw [hlength] at hi
    have hne := slot_add_ne r hik hlt (by omega)
    show Function.update b.sequence (slot k b.head) _ (slot k (r + i)) = _ ∧
      Function.update b.storage (slot k b.head) _ (slot k (r + i)) = _
    rw [hslot, Function.update_of_ne hne, Function.update_of_ne hne]
    exact h.free i (by omega) hik

theorem push_of_room (h : Holds w k r b q) (hkw : k ≤ w) (hlt : q.length < 2 ^ k) (value : α)
    (failures : Nat) : b.push w k value failures = .ok (true, b.publish w k value) := by
  refine MpscRingBuffer.push_of_sequence ?_ value failures
  rw [h.head_eq, slot_sizeT hkw]
  exact (h.free q.length le_rfl hlt).1

/-- In a full ring the cell at `head` still belongs to the oldest element. -/
theorem sequence_of_full (h : Holds w k r b q) (hkw : k ≤ w) (hfull : q.length = 2 ^ k) :
    b.head = sizeT w (r + 2 ^ k) ∧ b.sequence (slot k b.head) = sizeT w (r + 1) := by
  have hpos := Nat.two_pow_pos k
  refine ⟨by rw [h.head_eq, hfull], ?_⟩
  rw [h.head_eq, slot_sizeT hkw, hfull, slot_add]
  simpa using (h.stored 0 (by omega)).1

theorem push_of_full (h : Holds w k r b q) (hk : 1 ≤ k) (hkw : k ≤ w) (hfull : q.length = 2 ^ k)
    (hr : r + 2 ^ k < 2 ^ (w - 1)) (value : α) (failures : Nat) :
    b.push w k value failures = .ok (false, b) := by
  have hpow : 2 ≤ 2 ^ k := Nat.le_self_pow (by omega) 2
  have hhalf : 2 ^ (w - 1) ≤ 2 ^ w := Nat.pow_le_pow_right (by omega) (by omega)
  obtain ⟨hhead, hseq⟩ := h.sequence_of_full hkw hfull
  have hdiff : sequenceDiff w (sizeT w (r + 1)) (sizeT w (r + 2 ^ k)) =
      .ok (((r + 1 : Nat) : Int) - (r + 2 ^ k : Nat)) := by
    rw [sizeT_of_lt (by omega), sizeT_of_lt (by omega)]
    exact sequenceDiff_of_lt (by omega) hr
  have hneg : ((r + 1 : Nat) : Int) - (r + 2 ^ k : Nat) < 0 := by omega
  unfold MpscRingBuffer.push
  simp only [hseq]
  rw [hhead]
  simp only [hdiff, ok_bind]
  rw [if_neg hneg.ne, if_pos hneg]
  rfl

/-- The oldest element leaves the queue. -/
theorem pop_cons {value : α} (h : Holds w k r b (value :: q)) (hkw : k ≤ w) :
    b.pop w k = .ok (some value, b.release w k) ∧ Holds w k (r + 1) (b.release w k) q := by
  have hlen := h.length_le
  rw [List.length_cons] at hlen
  have hslot : slot k b.tail = slot k r := by rw [h.tail_eq, slot_sizeT hkw]
  have hnext : ∀ n, sizeT w (b.tail + n) = sizeT w (r + n) := fun n => by
    rw [h.tail_eq, sizeT_add]
  obtain ⟨hseq, hstorage⟩ := h.stored 0 (by simp)
  rw [Nat.add_zero] at hseq hstorage
  have hpop : b.pop w k = .ok (some value, b.release w k) := by
    simp only [MpscRingBuffer.pop, hslot, hseq, hnext, sequenceDiff_self, ok_bind, if_true, hstorage]
    rfl
  have hshift : ∀ i, r + 1 + i = r + (i + 1) := fun i => by omega
  have hne : ∀ i, i + 1 < 2 ^ k → slot k (r + (i + 1)) ≠ slot k r := fun i hi =>
    slot_add_ne r (j := 0) hi (by omega) (by omega)
  refine ⟨hpop, ?_, hnext 1, by omega, fun i hi => ?_, fun i hi hik => ?_⟩
  · have hhead := h.head_eq
    rw [List.length_cons] at hhead
    rw [hshift]
    exact hhead
  · -- the other elements move up by one place
    show Function.update b.sequence (slot k b.tail) _ (slot k (r + 1 + i)) = _ ∧
      Function.update b.storage (slot k b.tail) _ (slot k (r + 1 + i)) = _
    rw [hslot, hshift, Function.update_of_ne (hne i (by omega)),
      Function.update_of_ne (hne i (by omega))]
    exact h.stored (i + 1) (by simpa using hi)
  · show Function.update b.sequence (slot k b.tail) (sizeT w (b.tail + 2 ^ k))
      (slot k (r + 1 + i)) = _ ∧ Function.update b.storage (slot k b.tail) none
      (slot k (r + 1 + i)) = _
    rw [hslot, hshift, hnext]
    rcases Nat.lt_or_eq_of_le (Nat.succ_le_of_lt hik) with hlt | heq
    · rw [Function.update_of_ne (hne i hlt), Function.update_of_ne (hne i hlt)]
      exact h.free (i + 1) (by simpa using hi) hlt
    · -- the cell of the element that has left is free for its next turn
      rw [show i + 1 = 2 ^ k from heq, slot_add, Function.update_self, Function.update_self]
      exact ⟨rfl, rfl⟩

/-- In an empty ring the cell at `tail` waits for its producer. -/
theorem sequence_of_empty (h : Holds w k r b []) (hkw : k ≤ w) :
    b.sequence (slot k b.tail) = sizeT w r ∧ sizeT w (b.tail + 1) = sizeT w (r + 1) := by
  refine ⟨?_, by rw [h.tail_eq, sizeT_add]⟩
  rw [h.tail_eq, slot_sizeT hkw]
  simpa using (h.free 0 (by simp) (Nat.two_pow_pos k)).1

theorem pop_nil (h : Holds w k r b []) (hkw : k ≤ w) (hr : r + 1 < 2 ^ (w - 1)) :
    b.pop w k = .ok (none, b) := by
  have hhalf : 2 ^ (w - 1) ≤ 2 ^ w := Nat.pow_le_pow_right (by omega) (by omega)
  obtain ⟨hseq, hnext⟩ := h.sequence_of_empty hkw
  have hdiff : sequenceDiff w (sizeT w r) (sizeT w (r + 1)) = .ok ((r : Int) - (r + 1 : Nat)) := by
    rw [sizeT_of_lt (by omega), sizeT_of_lt (by omega)]
    exact sequenceDiff_of_lt (by omega) hr
  have hne : (r : Int) - (r + 1 : Nat) ≠ 0 := by omega
  simp only [MpscRingBuffer.pop, hseq, hnext, hdiff, ok_bind]
  rw [if_neg hne]
  rfl

/-- **One call** of the ring is the call on the queue, except that a `push` into a full ring
and a `pop` from an empty one look at two different counters, which have to be below half
the range. -/
theorem call (h : Holds w k r b q) (hk : 1 ≤ k) (hkw : k ≤ w)
    (hfull : q.length = 2 ^ k → r + 2 ^ k < 2 ^ (w - 1)) (hempty : q = [] → r + 1 < 2 ^ (w - 1))
    (c : Call α) :
    ∃ r' b', b.call w k c = .ok ((Fifo.call (2 ^ k) q c).1, b') ∧
      Holds w k r' b' (Fifo.call (2 ^ k) q c).2 ∧
      r ≤ r' ∧ 2 * r' + (Fifo.call (2 ^ k) q c).2.length ≤ 2 * r + q.length + 1 := by
  cases c with
  | push value failures =>
    rcases Nat.lt_or_eq_of_le h.length_le with hlt | hfull'
    · refine ⟨r, b.publish w k value, ?_, ?_, le_rfl, ?_⟩
      · simp only [MpscRingBuffer.call, h.push_of_room hkw hlt, Fifo.call, if_pos hlt]
        rfl
      · simp only [Fifo.call, if_pos hlt]
        exact h.publish hkw hlt value
      · simp only [Fifo.call, if_pos hlt, List.length_append, List.length_singleton]
        omega
    · refine ⟨r, b, ?_, ?_, le_rfl, ?_⟩
      · simp only [MpscRingBuffer.call, h.push_of_full hk hkw hfull' (hfull hfull'), Fifo.call,
          if_neg hfull'.not_lt]
        rfl
      · simp only [Fifo.call, if_neg hfull'.not_lt]
        exact h
      · simp only [Fifo.call, if_neg hfull'.not_lt]
        omega
  | pop =>
    cases q with
    | nil =>
      refine ⟨r, b, ?_, h, le_rfl, Nat.le_succ _⟩
      simp only [MpscRingBuffer.call, h.pop_nil hkw (hempty rfl)]
      rfl
    | cons value q =>
      obtain ⟨hpop, hrep⟩ := h.pop_cons hkw
      refine ⟨r + 1, b.release w k, ?_, hrep, Nat.le_succ r, ?_⟩
      · simp only [MpscRingBuffer.call, hpop]
        rfl
      · simp only [Fifo.call, List.tail_cons, List.length_cons]
        omega

/-- While fewer than `2 ^ w - 2 ^ k` calls have been made, the counters that a `push` into a
full ring and a `pop` from an empty one compare are below half the range. -/
theorem counters_below_half {n : Nat} (hk : 1 ≤ k) (hkw : k < w)
    (hn : 2 * r + n + 1 ≤ 2 ^ w - 2 ^ k) :
    (n = 2 ^ k → r + 2 ^ k < 2 ^ (w - 1)) ∧ r + 1 < 2 ^ (w - 1) := by
  have hpow : 2 ≤ 2 ^ k := Nat.le_self_pow (by omega) 2
  have hdouble : 2 ^ (w - 1) * 2 = 2 ^ w := Nat.two_pow_pred_mul_two (by omega)
  exact ⟨fun _ => by omega, by omega⟩

/-- **Any sequence of calls** of the ring is the sequence of calls on the queue, if it is not
too long. -/
theorem run (h : Holds w k r b q) (hk : 1 ≤ k) (hkw : k < w) (cs : List (Call α))
    (hn : 2 * r + q.length + cs.length ≤ 2 ^ w - 2 ^ k) :
    ∃ r' b', b.run w k cs = .ok ((Fifo.run (2 ^ k) q cs).1, b') ∧
      Holds w k r' b' (Fifo.run (2 ^ k) q cs).2 ∧ 2 * r' ≤ 2 ^ w - 2 ^ k := by
  induction cs generalizing b q r with
  | nil => exact ⟨r, b, rfl, h, by omega⟩
  | cons c cs ih =>
    rw [List.length_cons] at hn
    obtain ⟨hfull, hempty⟩ := counters_below_half (n := q.length) hk hkw (r := r) (by omega)
    obtain ⟨r₁, b₁, hcall, h₁, -, hle⟩ := h.call hk hkw.le hfull (fun _ => hempty) c
    obtain ⟨r₂, b₂, hrun, h₂, hle₂⟩ := ih h₁ (by omega)
    refine ⟨r₂, b₂, ?_, h₂, hle₂⟩
    simp only [MpscRingBuffer.run, hcall, ok_bind, hrun]
    rfl

end Holds

/-! ## Every capacity but one -/

/-- With one cell, the sequence that publishes an element is the one that frees
the cell for the next position, so a second `push` goes through. -/
theorem second_push_of_one_cell {w : Nat} (value value' : α) :
    ∃ b, MpscRingBuffer.initial.run w 0 [.push value 0, .push value' 0] =
      .ok ([.pushed true, .pushed true], b) := by
  have hempty : Holds (α := α) w 0 0 MpscRingBuffer.initial [] := .initial (Nat.zero_le w)
  have hfirst := hempty.push_of_room (Nat.zero_le w) (by simp) value 0
  have hheld := hempty.publish (Nat.zero_le w) (by simp) value
  have hslot : ∀ n, slot 0 n = 0 := fun n => by rw [slot_eq_mod, pow_zero, Nat.mod_one]
  have hsecond : (MpscRingBuffer.initial.publish w 0 value).sequence
      (slot 0 (MpscRingBuffer.initial.publish w 0 value).head) =
      (MpscRingBuffer.initial.publish w 0 value).head := by
    have hseq := (hheld.stored 0 (by simp)).1
    rw [hslot] at hseq ⊢
    rw [hseq, hheld.head_eq]
    rfl
  have hpush := MpscRingBuffer.push_of_sequence (w := w) hsecond value' 0
  refine ⟨(MpscRingBuffer.initial.publish w 0 value).publish w 0 value', ?_⟩
  simp only [MpscRingBuffer.run, MpscRingBuffer.call, hfirst, Except.map, ok_bind, hpush]
  rfl

/-- **The ring buffer is a queue of capacity `N = 2 ^ k`**, for every sequence of at most
`2 ^ w - N` calls, which is too short for a counter to leave the range of `intptr_t`, exactly if
`N` is not 1: the calls return what the calls on the queue return, the ring holds
the elements of the queue, and a call that returns `false` changes nothing. -/
theorem fifo_iff (α : Type) [Nonempty α] {w k : Nat} (hw : 16 ≤ w) (hk : k < w) :
    (∀ cs : List (Call α), cs.length ≤ 2 ^ w - 2 ^ k →
      ∃ b, MpscRingBuffer.initial.run w k cs = .ok ((Fifo.run (2 ^ k) [] cs).1, b) ∧
        Represents k b (Fifo.run (2 ^ k) [] cs).2 ∧
        ∀ c response b', b.call w k c = .ok (response, b') → response.isFalse = true → b' = b) ↔
    1 ≤ k := by
  constructor
  · intro h
    by_contra hzero
    obtain rfl : k = 0 := by omega
    obtain ⟨value⟩ := ‹Nonempty α›
    have hpow : 2 ^ 16 ≤ 2 ^ w := Nat.pow_le_pow_right (by omega) hw
    obtain ⟨b, hrun, -⟩ := h [.push value 0, .push value 0] (show 2 ≤ 2 ^ w - 2 ^ 0 by omega)
    obtain ⟨b', hrun'⟩ := second_push_of_one_cell value value
    rw [hrun'] at hrun
    cases hrun
  · intro hk1 cs hlen
    have hdouble : 2 ^ (w - 1) * 2 = 2 ^ w := Nat.two_pow_pred_mul_two (by omega)
    have hle : 2 ^ k ≤ 2 ^ (w - 1) := Nat.pow_le_pow_right (by omega) (by omega)
    have hpos := Nat.two_pow_pos k
    obtain ⟨r, b, hrun, hheld, hr⟩ := (Holds.initial hk.le).run hk1 hk cs
      (by rw [List.length_nil]; omega)
    exact ⟨b, hrun, hheld.represents (by omega), fun c response b' hcall hfalse =>
      MpscRingBuffer.call_false hcall hfalse⟩

/-- The theorem at two cells of 64-bit counters. -/
theorem fifo_two_cells : (16 ≤ 64 ∧ 1 < 64) ∧
    ∃ b, (MpscRingBuffer.initial : MpscRingBuffer Nat).run 64 1
      [.push 7 3, .push 8 0, .push 9 0, .pop, .push 9 1, .pop, .pop, .pop] =
      .ok ([.pushed true, .pushed true, .pushed false, .popped (some 7), .pushed true,
        .popped (some 8), .popped (some 9), .popped none], b) :=
  ⟨by decide,
    let ⟨b, hrun, _⟩ := (fifo_iff Nat (w := 64) (k := 1) (by decide) (by decide)).mpr (by decide)
      [.push 7 3, .push 8 0, .push 9 0, .pop, .push 9 1, .pop, .pop, .pop] (by decide)
    ⟨b, hrun⟩⟩

/-- With one cell both pushes succeed, the second element takes the place of the
first, and `pop` then finds nothing. -/
theorem one_cell_loses_both :
    ((MpscRingBuffer.initial : MpscRingBuffer Nat).run 64 0 [.push 7 0, .push 8 0, .pop]).map
        Prod.fst = .ok [.pushed true, .pushed true, .popped none] ∧
    (Fifo.run (2 ^ 0) ([] : List Nat) [.push 7 0, .push 8 0, .pop]).1 =
      [.pushed true, .pushed false, .popped (some 7)] :=
  ⟨rfl, rfl⟩

end Inbox

end Cortos
