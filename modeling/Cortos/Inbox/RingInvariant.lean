import Mathlib.Data.Nat.ModEq
import Mathlib.Data.List.Infix
import Cortos.Inbox.RingBuffer

/-!
# Safety of the ring buffer

Every position is, at any instant, in one of these phases, and the invariant
`RingInv` says what the cell of each position looks like:

- free: not claimed, and the position one turn before it has been released;
- in flight: a producer has claimed it and has not published it yet;
- published: its element is there for the consumer to take;
- released: the consumer is done with it, and its cell belongs to the next turn.

- `RingInv.step`: every step of every party keeps the invariant.
- `ring_buffer_safety`: no loss, no duplication, first in first out; nobody reads
  or overwrites a cell too early; `push` fails only on a full ring.
- `queue_step`: the ring is a bounded queue of the positions that are claimed
  and not released.
-/

namespace Cortos

open Lib

namespace Inbox

variable {α : Type}

/-! ## Positions and cells -/

theorem slot_eq_mod (k q : Nat) : slot k q = q % 2 ^ k :=
  Nat.and_two_pow_sub_one_eq_mod q k

/-- Positions within one turn of the ring have different cells. -/
theorem slot_inj {k r q q' : Nat} (hq : r ≤ q) (hq' : r ≤ q') (hlt : q < r + 2 ^ k)
    (hlt' : q' < r + 2 ^ k) (h : slot k q = slot k q') : q = q' := by
  rw [slot_eq_mod, slot_eq_mod] at h
  rcases Nat.le_total q q' with hle | hle
  · have hdvd := (Nat.modEq_iff_dvd' hle).mp h
    have := Nat.eq_zero_of_dvd_of_lt hdvd (by omega)
    omega
  · have hdvd := (Nat.modEq_iff_dvd' hle).mp h.symm
    have := Nat.eq_zero_of_dvd_of_lt hdvd (by omega)
    omega

theorem slot_add (k q : Nat) : slot k (q + 2 ^ k) = slot k q := by
  rw [slot_eq_mod, slot_eq_mod, Nat.add_mod_right]

/-- Every position has its cell in the turn of the ring that starts at `r`. -/
theorem exists_slot_eq (k r q : Nat) : ∃ q', r ≤ q' ∧ q' < r + 2 ^ k ∧ slot k q' = slot k q := by
  have hpos : 0 < 2 ^ k := Nat.two_pow_pos k
  refine ⟨r + (q + (2 ^ k - r % 2 ^ k)) % 2 ^ k, by omega, ?_, ?_⟩
  · have := Nat.mod_lt (q + (2 ^ k - r % 2 ^ k)) hpos
    omega
  · have hr := Nat.mod_lt r hpos
    have hsum : r + (q + (2 ^ k - r % 2 ^ k)) = q + 2 ^ k * (r / 2 ^ k + 1) := by
      have := Nat.div_add_mod r (2 ^ k)
      rw [Nat.mul_add]
      omega
    rw [slot_eq_mod, slot_eq_mod, Nat.add_mod_mod, hsum, Nat.add_mul_mod_self_left]

/-! ## The phases of a position -/

/-- The position that a producer has claimed and not yet published. -/
def PushPc.inFlight : PushPc α → Option Nat
  | .write _ q | .publish q => some q
  | _ => none

/-- The position that a producer has claimed and not yet written. -/
def PushPc.writing : PushPc α → Option Nat
  | .write _ q => some q
  | _ => none

/-- How many positions have been released. -/
def RingState.released (s : RingState α) : Nat :=
  match s.consumer with
  | .moveOut q | .storeSequence q _ => q
  | _ => s.ring.tail

/-- How many elements have been moved out. -/
def RingState.movedOut (s : RingState α) : Nat :=
  match s.consumer with
  | .moveOut q => q
  | .storeSequence q _ => q + 1
  | _ => s.ring.tail

/-- The consumer has advanced `tail` past a position that it has not released. -/
def PopPc.taking : PopPc α → Bool
  | .moveOut _ | .storeSequence _ _ => true
  | _ => false

theorem RingState.released_eq_tail {s : RingState α} (h : s.consumer.taking = false) :
    s.released = s.ring.tail := by
  cases hpc : s.consumer <;> simp_all [PopPc.taking, RingState.released]

theorem RingState.movedOut_eq_tail {s : RingState α} (h : s.consumer.taking = false) :
    s.movedOut = s.ring.tail := by
  cases hpc : s.consumer <;> simp_all [PopPc.taking, RingState.movedOut]

/-- Position `q` has been published. -/
def RingState.Published (s : RingState α) (q : Nat) : Prop :=
  q < s.ring.head ∧ ∀ p, (s.producer p).inFlight ≠ some q

/-- The element of position `q` is in its cell. -/
def RingState.Holds (s : RingState α) (q : Nat) : Prop :=
  s.movedOut ≤ q ∧ q < s.ring.head ∧ ∀ p, (s.producer p).writing ≠ some q

theorem writing_eq_none {pc : PushPc α} (h : pc.inFlight = none) : pc.writing = none := by
  cases pc <;> simp_all [PushPc.inFlight, PushPc.writing]

theorem inFlight_of_writing {pc : PushPc α} {q : Nat} (h : pc.writing = some q) :
    pc.inFlight = some q := by
  cases pc <;> simp_all [PushPc.inFlight, PushPc.writing]

section Update

variable (s : RingState α) (r : Ring α) (p : Nat) (pc : PushPc α) (q : Nat)

/-! `Published` and `Holds` with producer `p` set apart, before and after it moves. -/

theorem RingState.published_iff : s.Published q ↔ q < s.ring.head ∧
    (s.producer p).inFlight ≠ some q ∧ ∀ p' ≠ p, (s.producer p').inFlight ≠ some q := by
  grind [RingState.Published]

theorem RingState.published_update :
    RingState.Published { s with ring := r, producer := Function.update s.producer p pc } q ↔
      q < r.head ∧ pc.inFlight ≠ some q ∧ ∀ p' ≠ p, (s.producer p').inFlight ≠ some q :=
  and_congr_right fun _ =>
    Function.forall_update_iff s.producer (p := fun _ pc => pc.inFlight ≠ some q)

theorem RingState.holds_iff : s.Holds q ↔ s.movedOut ≤ q ∧ q < s.ring.head ∧
    (s.producer p).writing ≠ some q ∧ ∀ p' ≠ p, (s.producer p').writing ≠ some q := by
  grind [RingState.Holds]

theorem RingState.holds_update (htail : r.tail = s.ring.tail) :
    RingState.Holds { s with ring := r, producer := Function.update s.producer p pc } q ↔
      s.movedOut ≤ q ∧ q < r.head ∧
      pc.writing ≠ some q ∧ ∀ p' ≠ p, (s.producer p').writing ≠ some q := by
  unfold RingState.Holds RingState.movedOut
  rw [htail]
  exact and_congr_right fun _ => and_congr_right fun _ =>
    Function.forall_update_iff s.producer (p := fun _ pc => pc.writing ≠ some q)

end Update

/-- What a producer knows at each point of `push`. -/
def PushPc.Ok (k : Nat) (s : RingState α) : PushPc α → Prop
  | .load _ | .returned _ => True
  | .loadSequence _ q => q ≤ s.ring.head
  | .claim _ q => q ≤ s.ring.head ∧ (q = s.ring.head → q < s.released + 2 ^ k)
  | .write v q => s.ring.tail ≤ q ∧ q < s.ring.head ∧ s.ring.pushed[q]? = some v
  | .publish q => s.ring.tail ≤ q ∧ q < s.ring.head

/-- What the consumer knows at each point of `pop`. -/
def PopPc.Ok (s : RingState α) : PopPc α → Prop
  | .load | .returned _ => True
  | .loadSequence q => q = s.ring.tail
  | .storeTail q => q = s.ring.tail ∧ s.Published q
  | .moveOut q => s.ring.tail = q + 1
  | .storeSequence q out => s.ring.tail = q + 1 ∧ s.ring.pushed[q]? = out

/-- What another producer knows is kept by any step: positions only grow. -/
theorem PushPc.Ok.mono {k : Nat} {s s' : RingState α} {pc : PushPc α} (h : pc.Ok k s)
    (hhead : s.ring.head ≤ s'.ring.head) (hreleased : s.released ≤ s'.released)
    (htail : ∀ q, pc.inFlight = some q → s.ring.tail ≤ q → s'.ring.tail ≤ q)
    (hpushed : s.ring.pushed <+: s'.ring.pushed) : pc.Ok k s' := by
  cases pc with
  | load v => trivial
  | loadSequence v q => exact Nat.le_trans h hhead
  | claim v q =>
    obtain ⟨hq, hlt⟩ := h
    refine ⟨by omega, fun heq => ?_⟩
    have := hlt (by omega)
    omega
  | write v q =>
    obtain ⟨hq, hlt, hv⟩ := h
    exact ⟨htail q rfl hq, by omega, by
      obtain ⟨rest, hrest⟩ := hpushed
      rw [← hrest, List.getElem?_append_left (List.getElem?_eq_some_iff.mp hv).1, hv]⟩
  | publish q => exact ⟨htail q rfl h.1, by have := h.2; omega⟩
  | returned ok => trivial

theorem PopPc.Ok.of_published {s s' : RingState α} {pc : PopPc α} (h : pc.Ok s)
    (htail : s'.ring.tail = s.ring.tail) (hp : ∀ q, s.Published q → s'.Published q)
    (hpushed : ∀ q < s.ring.tail, s'.ring.pushed[q]? = s.ring.pushed[q]?) : pc.Ok s' := by
  cases pc with
  | load => trivial
  | loadSequence q => exact h.trans htail.symm
  | storeTail q => exact ⟨h.1.trans htail.symm, hp q h.2⟩
  | moveOut q => exact htail.trans h
  | storeSequence q out =>
    exact ⟨htail.trans h.1, (hpushed q (by have := h.1; omega)).trans h.2⟩
  | returned out => trivial

/-- The invariant of the ring. The last two fields give the cell of every
position of the current turn. -/
structure RingInv (k : Nat) (s : RingState α) : Prop where
  tail_le : s.ring.tail ≤ s.ring.head
  head_le : s.ring.head ≤ s.released + 2 ^ k
  length_pushed : s.ring.pushed.length = s.ring.head
  popped : s.ring.popped = s.ring.pushed.take s.movedOut
  producer : ∀ p, (s.producer p).Ok k s
  distinct : ∀ p p' q, (s.producer p).inFlight = some q → (s.producer p').inFlight = some q →
    p = p'
  consumer : s.consumer.Ok s
  sequence : ∀ q, s.released ≤ q → q < s.released + 2 ^ k →
    (s.Published q → s.ring.sequence (slot k q) = q + 1) ∧
    (¬ s.Published q → s.ring.sequence (slot k q) = q)
  storage : ∀ q, s.released ≤ q → q < s.released + 2 ^ k →
    (s.Holds q → s.ring.storage (slot k q) = s.ring.pushed[q]?) ∧
    (¬ s.Holds q → s.ring.storage (slot k q) = none)

namespace RingInv

variable {k : Nat} {s : RingState α} {p : Nat}

/-- Released, moved out and taken, in this order; at most one apart. -/
theorem released_le (h : RingInv k s) :
    s.released ≤ s.movedOut ∧ s.movedOut ≤ s.ring.tail ∧ s.ring.tail ≤ s.released + 1 := by
  have hc := h.consumer
  cases hpc : s.consumer <;>
    simp_all [RingState.released, RingState.movedOut, PopPc.Ok]

theorem inFlight_bounds (h : RingInv k s) {q : Nat} (hq : (s.producer p).inFlight = some q) :
    s.ring.tail ≤ q ∧ q < s.ring.head := by
  have hok := h.producer p
  cases hpc : s.producer p <;> simp_all [PushPc.inFlight, PushPc.Ok]

/-- Positions in flight stay distinct when `p` moves to one that nobody has. -/
theorem distinct_update (h : RingInv k s) {pc : PushPc α}
    (hpc : ∀ p' ≠ p, ∀ q, pc.inFlight = some q → (s.producer p').inFlight ≠ some q)
    (p₁ p₂ q : Nat)
    (h₁ : (Function.update s.producer p pc p₁).inFlight = some q)
    (h₂ : (Function.update s.producer p pc p₂).inFlight = some q) : p₁ = p₂ := by
  have hdistinct := h.distinct p₁ p₂ q
  grind [Function.update_apply]

theorem initial (k : Nat) : RingInv k (RingState.initial : RingState α) where
  tail_le := Nat.le_refl 0
  head_le := Nat.zero_le _
  length_pushed := rfl
  popped := rfl
  producer _ := trivial
  distinct _ _ _ := nofun
  consumer := trivial
  sequence q _ hq := by
    refine ⟨fun hp => absurd hp.1 (Nat.not_lt_zero q), fun _ => ?_⟩
    have hlt : q < 2 ^ k := by simpa [RingState.released, RingState.initial] using hq
    show slot k q = q
    rw [slot_eq_mod, Nat.mod_eq_of_lt hlt]
  storage q _ _ := ⟨fun hh => absurd hh.2.1 (Nat.not_lt_zero q), fun _ => rfl⟩

/-! ### Producer steps -/

/-- A producer moves between points of `push` at which it has no position. -/
theorem setProducer (h : RingInv k s) {pc : PushPc α} (hold : (s.producer p).inFlight = none)
    (hnew : pc.inFlight = none) (hok : pc.Ok k s) :
    RingInv k { s with producer := Function.update s.producer p pc } := by
  have hpublished (q : Nat) : RingState.Published
      { s with producer := Function.update s.producer p pc } q ↔ s.Published q := by
    rw [RingState.published_update, s.published_iff p, hold, hnew]
  have hholds (q : Nat) : RingState.Holds
      { s with producer := Function.update s.producer p pc } q ↔ s.Holds q := by
    rw [s.holds_update s.ring p pc q rfl, s.holds_iff p, writing_eq_none hold,
      writing_eq_none hnew]
  exact
    { h with
      producer := Function.forall_update_iff s.producer (p := fun _ pc => pc.Ok k s)
        |>.mpr ⟨hok, fun p' _ => h.producer p'⟩
      distinct := h.distinct_update (by simp [hnew])
      consumer := h.consumer.of_published rfl (fun q => (hpublished q).mpr) fun _ _ => rfl
      sequence := fun q hq hlt => by simpa only [hpublished] using h.sequence q hq hlt
      storage := fun q hq hlt => by simpa only [hholds] using h.storage q hq hlt }

/-- The compare-and-swap of a producer succeeds: position `head` is claimed. -/
theorem claim (h : RingInv k s) {v : α} (hpc : s.producer p = .claim v s.ring.head) :
    RingInv k
      { s with
        ring := { s.ring with head := s.ring.head + 1, pushed := s.ring.pushed ++ [v] }
        producer := Function.update s.producer p (.write v s.ring.head) } := by
  have hfree : s.ring.head < s.released + 2 ^ k := by
    have := h.producer p
    rw [hpc] at this
    exact this.2 rfl
  have hunclaimed (p' : Nat) : (s.producer p').inFlight ≠ some s.ring.head := fun hq =>
    Nat.lt_irrefl _ (h.inFlight_bounds hq).2
  obtain ⟨hreleased, hmoved, -⟩ := h.released_le
  have htail := h.tail_le
  have hlen := h.length_pushed
  set r : Ring α := { s.ring with head := s.ring.head + 1, pushed := s.ring.pushed ++ [v] }
  set s' : RingState α :=
    { s with ring := r, producer := Function.update s.producer p (.write v s.ring.head) }
  have hpublished (q : Nat) : s'.Published q ↔ s.Published q := by
    rw [s.published_update r, s.published_iff p, hpc]
    show q < s.ring.head + 1 ∧ _ ↔ _
    grind [PushPc.inFlight]
  have hholds (q : Nat) : s'.Holds q ↔ s.Holds q := by
    rw [s.holds_update r p _ q rfl, s.holds_iff p, hpc]
    show _ ∧ q < s.ring.head + 1 ∧ _ ↔ _
    grind [PushPc.writing]
  refine
    { tail_le := Nat.le_succ_of_le htail
      head_le := hfree
      length_pushed := ?_
      popped := ?_
      producer := ?_
      distinct := h.distinct_update fun p' _ q hq hp' => hunclaimed p' (hp'.trans hq.symm)
      consumer := h.consumer.of_published rfl (fun q => (hpublished q).mpr) fun q hq =>
        List.getElem?_append_left (by omega)
      sequence := fun q hq hlt => by simpa only [hpublished] using h.sequence q hq hlt
      storage := fun q hq hlt => ?_ }
  · show (s.ring.pushed ++ [v]).length = s.ring.head + 1
    rw [List.length_append, hlen, List.length_singleton]
  · show s.ring.popped = (s.ring.pushed ++ [v]).take s.movedOut
    rw [List.take_append_of_le_length (by omega), h.popped]
  · refine Function.forall_update_iff s.producer (p := fun _ pc => pc.Ok k s')
      |>.mpr ⟨⟨htail, Nat.lt_succ_self _, ?_⟩, fun p' _ => ?_⟩
    · show (s.ring.pushed ++ [v])[s.ring.head]? = some v
      rw [← hlen, List.getElem?_concat_length]
    · exact (h.producer p').mono (Nat.le_succ _) (Nat.le_refl _) (fun _ _ hq => hq)
        (List.prefix_append _ _)
  · rw [hholds]
    refine ⟨fun hq' => ?_, (h.storage q hq hlt).2⟩
    show _ = (s.ring.pushed ++ [v])[q]?
    rw [List.getElem?_append_left (by have := hq'.2.1; omega)]
    exact (h.storage q hq hlt).1 hq'

/-- A producer constructs its element in the cell it has claimed. -/
theorem write (h : RingInv k s) {v : α} {q₀ : Nat} (hpc : s.producer p = .write v q₀) :
    RingInv k
      { s with
        ring := { s.ring with storage := Function.update s.ring.storage (slot k q₀) (some v) }
        producer := Function.update s.producer p (.publish q₀) } := by
  obtain ⟨hle, hlt₀, hv⟩ : s.ring.tail ≤ q₀ ∧ q₀ < s.ring.head ∧ s.ring.pushed[q₀]? = some v := by
    have := h.producer p
    rwa [hpc] at this
  have hothers : ∀ p' ≠ p, (s.producer p').inFlight ≠ some q₀ := fun p' hne hq =>
    hne (h.distinct p' p q₀ hq (by rw [hpc]; rfl))
  obtain ⟨hreleased, hmoved, -⟩ := h.released_le
  have hhead := h.head_le
  set r : Ring α :=
    { s.ring with storage := Function.update s.ring.storage (slot k q₀) (some v) }
  set s' : RingState α :=
    { s with ring := r, producer := Function.update s.producer p (.publish q₀) }
  have hpublished (q : Nat) : s'.Published q ↔ s.Published q := by
    rw [s.published_update r, s.published_iff p, hpc]
    rfl
  have hholds (q : Nat) : s'.Holds q ↔ s.Holds q ∨ q = q₀ := by
    have hwriting : ∀ p' ≠ p, (s.producer p').writing ≠ some q₀ := fun p' hne hq =>
      hothers p' hne (inFlight_of_writing hq)
    rw [s.holds_update r p _ q rfl, s.holds_iff p, hpc]
    show _ ∧ q < s.ring.head ∧ _ ↔ _
    grind [PushPc.writing]
  refine
    { h with
      producer := Function.forall_update_iff s.producer (p := fun _ pc => pc.Ok k s')
        |>.mpr ⟨⟨hle, hlt₀⟩, fun p' _ => (h.producer p').mono (Nat.le_refl _) (Nat.le_refl _)
          (fun _ _ hq => hq) (List.prefix_refl _)⟩
      distinct := h.distinct_update fun p' hne q hq hp' =>
        hothers p' hne (hp'.trans hq.symm)
      consumer := h.consumer.of_published rfl (fun q => (hpublished q).mpr) fun _ _ => rfl
      sequence := fun q hq hlt => by simpa only [hpublished] using h.sequence q hq hlt
      storage := fun q (hq : s.released ≤ q) (hlt : q < s.released + 2 ^ k) => ?_ }
  show (_ → Function.update s.ring.storage _ _ _ = s.ring.pushed[q]?) ∧
    (_ → Function.update s.ring.storage _ _ _ = none)
  rw [hholds]
  rcases eq_or_ne q q₀ with rfl | hne
  · rw [Function.update_self, hv]
    simp
  · rw [Function.update_of_ne fun hslot => hne (slot_inj hq (by omega) hlt (by omega) hslot)]
    simpa only [hne, or_false] using h.storage q hq hlt

/-- The cell that a producer is about to write is empty. -/
theorem storage_write (h : RingInv k s) {v : α} {q₀ : Nat} (hpc : s.producer p = .write v q₀) :
    s.ring.storage (slot k q₀) = none := by
  obtain ⟨hle, hlt⟩ := h.inFlight_bounds (p := p) (q := q₀) (by rw [hpc]; rfl)
  have hreleased := h.released_le
  have hhead := h.head_le
  refine (h.storage q₀ (by omega) (by omega)).2 fun hholds => hholds.2.2 p ?_
  rw [hpc]
  rfl

/-- A producer publishes the position it has claimed. -/
theorem publish (h : RingInv k s) {q₀ : Nat} (hpc : s.producer p = .publish q₀) :
    RingInv k
      { s with
        ring := { s.ring with sequence := Function.update s.ring.sequence (slot k q₀) (q₀ + 1) }
        producer := Function.update s.producer p (.returned true) } := by
  obtain ⟨hle, hlt₀⟩ : s.ring.tail ≤ q₀ ∧ q₀ < s.ring.head := h.inFlight_bounds (by rw [hpc]; rfl)
  have hothers : ∀ p' ≠ p, (s.producer p').inFlight ≠ some q₀ := fun p' hne hq =>
    hne (h.distinct p' p q₀ hq (by rw [hpc]; rfl))
  obtain ⟨hreleased, hmoved, -⟩ := h.released_le
  have hhead := h.head_le
  set r : Ring α :=
    { s.ring with sequence := Function.update s.ring.sequence (slot k q₀) (q₀ + 1) }
  set s' : RingState α :=
    { s with ring := r, producer := Function.update s.producer p (.returned true) }
  have hpublished (q : Nat) : s'.Published q ↔ s.Published q ∨ q = q₀ := by
    rw [s.published_update r, s.published_iff p, hpc]
    show q < s.ring.head ∧ _ ↔ _
    grind [PushPc.inFlight]
  have hholds (q : Nat) : s'.Holds q ↔ s.Holds q := by
    rw [s.holds_update r p _ q rfl, s.holds_iff p, hpc]
    rfl
  refine
    { h with
      producer := Function.forall_update_iff s.producer (p := fun _ pc => pc.Ok k s')
        |>.mpr ⟨trivial, fun p' _ => (h.producer p').mono (Nat.le_refl _) (Nat.le_refl _)
          (fun _ _ hq => hq) (List.prefix_refl _)⟩
      distinct := h.distinct_update fun p' _ q hq => nomatch hq
      consumer := h.consumer.of_published rfl (fun q hq => (hpublished q).mpr (.inl hq))
        fun _ _ => rfl
      sequence := fun q (hq : s.released ≤ q) (hlt : q < s.released + 2 ^ k) => ?_
      storage := fun q hq hlt => by simpa only [hholds] using h.storage q hq hlt }
  show (_ → Function.update s.ring.sequence _ _ _ = q + 1) ∧
    (_ → Function.update s.ring.sequence _ _ _ = q)
  rw [hpublished]
  rcases eq_or_ne q q₀ with rfl | hne
  · rw [Function.update_self]
    simp
  · rw [Function.update_of_ne fun hslot => hne (slot_inj hq (by omega) hlt (by omega) hslot)]
    simpa only [hne, or_false] using h.sequence q hq hlt

/-! ### Consumer steps -/

/-- The consumer moves, or advances `tail`, and neither takes an element out of
its cell nor releases one. -/
theorem setTail (h : RingInv k s) {t : Nat} {pc : PopPc α}
    (hreleased : RingState.released { s with ring := { s.ring with tail := t }, consumer := pc } =
      s.released)
    (hmoved : RingState.movedOut { s with ring := { s.ring with tail := t }, consumer := pc } =
      s.movedOut)
    (hle : t ≤ s.ring.head) (hflight : ∀ p q, (s.producer p).inFlight = some q → t ≤ q)
    (hok : pc.Ok { s with ring := { s.ring with tail := t }, consumer := pc }) :
    RingInv k { s with ring := { s.ring with tail := t }, consumer := pc } :=
  { h with
    tail_le := hle
    head_le := by rw [hreleased]; exact h.head_le
    popped := by rw [hmoved]; exact h.popped
    producer := fun p => (h.producer p).mono (Nat.le_refl _) hreleased.ge
      (fun q hq _ => hflight p q hq) (List.prefix_refl _)
    consumer := hok
    sequence := fun q => by rw [hreleased]; exact h.sequence q
    storage := fun q => by
      rw [hreleased]
      unfold RingState.Holds
      rw [hmoved]
      exact h.storage q }

/-- The consumer moves between points of `pop` at which it has taken nothing. -/
theorem setConsumer (h : RingInv k s) {pc : PopPc α} (hold : s.consumer.taking = false)
    (hnew : pc.taking = false) (hok : pc.Ok s) : RingInv k { s with consumer := pc } :=
  h.setTail
    ((RingState.released_eq_tail hnew).trans (RingState.released_eq_tail hold).symm)
    ((RingState.movedOut_eq_tail hnew).trans (RingState.movedOut_eq_tail hold).symm)
    h.tail_le (fun _ _ hq => (h.inFlight_bounds hq).1)
    (hok.of_published rfl (fun _ hq => hq) fun _ _ => rfl)

/-- The consumer takes the position at `tail`, which has been published. -/
theorem storeTail (h : RingInv k s) {q₀ : Nat} (hpc : s.consumer = .storeTail q₀) :
    RingInv k { s with ring := { s.ring with tail := q₀ + 1 }, consumer := .moveOut q₀ } := by
  obtain ⟨htail, hpub⟩ : q₀ = s.ring.tail ∧ s.Published q₀ := by
    have := h.consumer
    rwa [hpc] at this
  have hold : s.consumer.taking = false := by rw [hpc]; rfl
  refine h.setTail (htail.trans (RingState.released_eq_tail hold).symm)
    (htail.trans (RingState.movedOut_eq_tail hold).symm) hpub.1 (fun p q hq => ?_) rfl
  have hne : q ≠ q₀ := fun heq => hpub.2 p (heq ▸ hq)
  have := (h.inFlight_bounds hq).1
  omega

/-- The element that the consumer is about to move out is in its cell. -/
theorem storage_moveOut (h : RingInv k s) {q₀ : Nat} (hpc : s.consumer = .moveOut q₀) :
    s.Holds q₀ ∧ s.ring.storage (slot k q₀) = s.ring.pushed[q₀]? := by
  have htail : s.ring.tail = q₀ + 1 := by
    have := h.consumer
    rwa [hpc] at this
  have hreleased : s.released = q₀ := by rw [RingState.released, hpc]
  have hmoved : s.movedOut = q₀ := by rw [RingState.movedOut, hpc]
  have hholds : s.Holds q₀ := by
    refine ⟨hmoved.le, by have := h.tail_le; omega, fun p hq => ?_⟩
    have := (h.inFlight_bounds (inFlight_of_writing hq)).1
    omega
  exact ⟨hholds, (h.storage q₀ hreleased.le (by have := Nat.two_pow_pos k; omega)).1 hholds⟩

/-- No producer has the cell that the consumer is about to empty. -/
theorem slot_moveOut (h : RingInv k s) {q₀ q : Nat} (hpc : s.consumer = .moveOut q₀)
    (hq : (s.producer p).inFlight = some q) : slot k q ≠ slot k q₀ := by
  have htail : s.ring.tail = q₀ + 1 := by
    have := h.consumer
    rwa [hpc] at this
  have hreleased : s.released = q₀ := by rw [RingState.released, hpc]
  obtain ⟨hle, hlt⟩ := h.inFlight_bounds hq
  have hhead := h.head_le
  intro hslot
  have := slot_inj (r := q₀) (by omega) (Nat.le_refl _) (by omega) (by omega) hslot
  omega

/-- The consumer moves the element out of its cell. -/
theorem moveOut (h : RingInv k s) {q₀ : Nat} (hpc : s.consumer = .moveOut q₀) :
    RingInv k
      { s with
        ring :=
          { s.ring with
            storage := Function.update s.ring.storage (slot k q₀) none
            popped := s.ring.popped ++ (s.ring.storage (slot k q₀)).toList }
        consumer := .storeSequence q₀ (s.ring.storage (slot k q₀)) } := by
  have htail : s.ring.tail = q₀ + 1 := by
    have := h.consumer
    rwa [hpc] at this
  have hreleased : s.released = q₀ := by rw [RingState.released, hpc]
  have hmoved : s.movedOut = q₀ := by rw [RingState.movedOut, hpc]
  set s' : RingState α :=
    { s with
      ring :=
        { s.ring with
          storage := Function.update s.ring.storage (slot k q₀) none
          popped := s.ring.popped ++ (s.ring.storage (slot k q₀)).toList }
      consumer := .storeSequence q₀ (s.ring.storage (slot k q₀)) }
  have hreleased' : s'.released = q₀ := rfl
  have hholds (q : Nat) : s'.Holds q ↔ s.Holds q ∧ q ≠ q₀ := by
    show q₀ + 1 ≤ q ∧ _ ↔ _
    unfold RingState.Holds
    rw [hmoved]
    grind
  refine
    { h with
      head_le := by rw [hreleased', ← hreleased]; exact h.head_le
      popped := ?_
      producer := fun p => (h.producer p).mono (Nat.le_refl _) (hreleased.trans hreleased'.symm).le
        (fun _ _ hq => hq) (List.prefix_refl _)
      consumer := ⟨htail, (h.storage_moveOut hpc).2.symm⟩
      sequence := fun q => by rw [hreleased', ← hreleased]; exact h.sequence q
      storage := fun q (hq : q₀ ≤ q) (hlt : q < q₀ + 2 ^ k) => ?_ }
  · show s.ring.popped ++ (s.ring.storage (slot k q₀)).toList = s.ring.pushed.take (q₀ + 1)
    rw [h.popped, (h.storage_moveOut hpc).2, hmoved, List.take_add_one]
  · show (_ → Function.update s.ring.storage _ _ _ = s.ring.pushed[q]?) ∧
      (_ → Function.update s.ring.storage _ _ _ = none)
    rw [hholds]
    rcases eq_or_ne q q₀ with rfl | hne
    · simp
    · rw [Function.update_of_ne fun hslot => hne (slot_inj hq (Nat.le_refl _) hlt (by omega) hslot)]
      simpa only [hne, ne_eq, not_false_eq_true, and_true, hreleased] using
        h.storage q (hreleased.le.trans hq) (hreleased ▸ hlt)

/-- The consumer releases the cell to the position one turn later. -/
theorem storeSequence (h : RingInv k s) {q₀ : Nat} {out : Option α}
    (hpc : s.consumer = .storeSequence q₀ out) :
    RingInv k
      { s with
        ring :=
          { s.ring with
            sequence := Function.update s.ring.sequence (slot k q₀) (q₀ + 2 ^ k) }
        consumer := .returned out } := by
  have htail : s.ring.tail = q₀ + 1 := by
    have := h.consumer
    rw [hpc] at this
    exact this.1
  have hreleased : s.released = q₀ := by rw [RingState.released, hpc]
  have hmoved : s.movedOut = q₀ + 1 := by rw [RingState.movedOut, hpc]
  have hhead := h.head_le
  set s' : RingState α :=
    { s with
      ring :=
        { s.ring with sequence := Function.update s.ring.sequence (slot k q₀) (q₀ + 2 ^ k) }
      consumer := .returned out }
  have hreleased' : s'.released = q₀ + 1 := htail
  have hmoved' : s'.movedOut = s.movedOut := htail.trans hmoved.symm
  have hholds (q : Nat) : s'.Holds q ↔ s.Holds q := by
    unfold RingState.Holds
    rw [hmoved']
  refine
    { h with
      head_le := by rw [hreleased']; show s.ring.head ≤ _; omega
      popped := by rw [hmoved']; exact h.popped
      producer := fun p => (h.producer p).mono (Nat.le_refl _) (by omega)
        (fun _ _ hq => hq) (List.prefix_refl _)
      consumer := trivial
      sequence := fun q hq hlt => ?_
      storage := fun q hq hlt => ?_ }
  · show (_ → Function.update s.ring.sequence _ _ _ = q + 1) ∧
      (_ → Function.update s.ring.sequence _ _ _ = q)
    rcases eq_or_ne q (q₀ + 2 ^ k) with rfl | hne
    · rw [slot_add, Function.update_self]
      exact ⟨fun hp => absurd hp.1 (by show ¬ _ < s.ring.head; omega), fun _ => rfl⟩
    · rw [Function.update_of_ne fun hslot => ?_]
      · exact h.sequence q (by omega) (by omega)
      · have := slot_inj (r := q₀) (by omega) (Nat.le_refl _) (by omega) (by omega) hslot
        omega
  · show (_ → s.ring.storage _ = _) ∧ (_ → s.ring.storage _ = _)
    rw [hholds]
    rcases eq_or_ne q (q₀ + 2 ^ k) with rfl | hne
    · rw [slot_add]
      refine ⟨fun hq' => absurd hq'.2.1 (by omega), fun _ => ?_⟩
      exact (h.storage q₀ hreleased.le (by omega)).2 fun hq' => absurd hq'.1 (by omega)
    · exact h.storage q (by omega) (by omega)

/-! ### Every step -/

/-- What `push` reads from the sequence of a cell: it is behind the position
exactly when the ring is full. The two cases differ because a turn has more than
one position. -/
theorem sequence_lt_iff (h : RingInv k s) (hk : 1 ≤ k) {q : Nat} (hq : q ≤ s.ring.head) :
    s.ring.sequence (slot k q) < q ↔ q = s.released + 2 ^ k := by
  have hturn : 2 ≤ 2 ^ k := by simpa using Nat.pow_le_pow_right (n := 2) (by omega) hk
  have hhead := h.head_le
  obtain ⟨q', hle, hlt, hslot⟩ := exists_slot_eq k s.released q
  have hsequence : s.ring.sequence (slot k q) = q' + 1 ∨ s.ring.sequence (slot k q) = q' := by
    rw [← hslot]
    by_cases hp : s.Published q'
    · exact .inl ((h.sequence q' hle hlt).1 hp)
    · exact .inr ((h.sequence q' hle hlt).2 hp)
  rcases Nat.lt_or_ge q s.released with hold | hge
  · omega
  · rcases Nat.lt_or_ge q (s.released + 2 ^ k) with hin | hout
    · have := slot_inj hle hge hlt hin hslot
      omega
    · have heq : q = s.released + 2 ^ k := by omega
      rw [heq, slot_add] at hslot
      have := slot_inj hle (Nat.le_refl _) hlt (by omega) hslot
      omega

/-- `push` gives up only at a sequence load, and only on a full ring. -/
theorem returned_false (h : RingInv k s) (hk : 1 ≤ k) {spurious : Bool}
    (hpc : (s.producer p).isReturned = false)
    (hret : (s.ring.push k spurious (s.producer p)).2 = .returned false) :
    (∃ v q, s.producer p = .loadSequence v q) ∧ s.ring.head = s.released + 2 ^ k := by
  have hok := h.producer p
  cases hp : s.producer p with
  | loadSequence v q =>
    rw [hp] at hret hok
    refine ⟨⟨v, q, rfl⟩, ?_⟩
    have hle : q ≤ s.ring.head := hok
    have hlt := h.sequence_lt_iff hk hle
    have hhead := h.head_le
    simp only [Ring.push] at hret
    split_ifs at hret with hzero hneg
    omega
  | claim v q =>
    rw [hp] at hret
    simp only [Ring.push] at hret
    split_ifs at hret
  | returned ok => simp [hp, PushPc.isReturned] at hpc
  | load | write | publish => simp [hp, Ring.push] at hret

/-- Every step of `push` keeps the invariant. -/
theorem produce (h : RingInv k s) (hk : 1 ≤ k) (spurious : Bool) :
    RingInv k (s.produce k p spurious) := by
  have hok := h.producer p
  unfold RingState.produce
  cases hpc : s.producer p with
  | load v =>
    exact h.setProducer (by rw [hpc]; rfl) rfl (Nat.le_refl _)
  | loadSequence v q =>
    rw [hpc] at hok
    have hlt := h.sequence_lt_iff hk hok
    simp only [Ring.push]
    split_ifs with hzero hneg
    · refine h.setProducer (by rw [hpc]; rfl) rfl ⟨hok, fun heq => ?_⟩
      have := h.head_le
      omega
    · exact h.setProducer (by rw [hpc]; rfl) rfl trivial
    · exact h.setProducer (by rw [hpc]; rfl) rfl trivial
  | claim v q =>
    simp only [Ring.push]
    split_ifs with hcas
    · obtain ⟨rfl, -⟩ := hcas
      exact h.claim hpc
    · exact h.setProducer (by rw [hpc]; rfl) rfl (Nat.le_refl _)
  | write v q => exact h.write hpc
  | publish q => exact h.publish hpc
  | returned ok => exact h.setProducer (by rw [hpc]; rfl) rfl trivial

/-- Every step of `pop` keeps the invariant. -/
theorem consume (h : RingInv k s) : RingInv k (s.consume k) := by
  have hok := h.consumer
  unfold RingState.consume
  cases hpc : s.consumer with
  | load => exact h.setConsumer (by rw [hpc]; rfl) rfl rfl
  | loadSequence q =>
    obtain rfl : q = s.ring.tail := by rwa [hpc] at hok
    simp only [Ring.pop]
    split_ifs with hzero
    · refine h.setConsumer (by rw [hpc]; rfl) rfl ⟨rfl, ?_⟩
      have hreleased : s.released = s.ring.tail := RingState.released_eq_tail (by rw [hpc]; rfl)
      by_contra hp
      have := (h.sequence s.ring.tail hreleased.le (by have := Nat.two_pow_pos k; omega)).2 hp
      omega
    · exact h.setConsumer (by rw [hpc]; rfl) rfl trivial
  | storeTail q => exact h.storeTail hpc
  | moveOut q => exact h.moveOut hpc
  | storeSequence q out => exact h.storeSequence hpc
  | returned out => exact h.setConsumer (by rw [hpc]; rfl) rfl trivial

end RingInv

theorem inFlight_of_isReturned {pc : PushPc α} (h : pc.isReturned = true) : pc.inFlight = none := by
  cases pc <;> simp_all [PushPc.isReturned, PushPc.inFlight]

theorem taking_of_isReturned {pc : PopPc α} (h : pc.isReturned = true) : pc.taking = false := by
  cases pc <;> simp_all [PopPc.isReturned, PopPc.taking]

/-- One step of any of the ring's users keeps the invariant. -/
theorem RingInv.step {k : Nat} {s s' : RingState α} {l : RingLabel α} (h : RingInv k s)
    (hk : 1 ≤ k) (hstep : s.step k l = .ok s') : RingInv k s' := by
  cases l with
  | push p v =>
    simp only [RingState.step] at hstep
    split_ifs at hstep with hr
    cases hstep
    exact h.setProducer (inFlight_of_isReturned hr) rfl trivial
  | produce p spurious =>
    simp only [RingState.step] at hstep
    split_ifs at hstep
    cases hstep
    exact h.produce hk spurious
  | pop =>
    simp only [RingState.step] at hstep
    split_ifs at hstep with hr
    cases hstep
    exact h.setConsumer (taking_of_isReturned hr) rfl trivial
  | consume =>
    simp only [RingState.step] at hstep
    split_ifs at hstep
    cases hstep
    exact h.consume

/-- **The ring's invariant** holds in every reachable state. -/
theorem ring_invariant {k : Nat} (hk : 1 ≤ k) {s : RingState α}
    (hs : (ringSystem α k).ReachVia (fun _ _ => True) s) : RingInv k s :=
  hs.invariant (fun _ h => h ▸ RingInv.initial k) fun _ _ _ _ h _ hstep => h.step hk hstep

/-- **Safety of the ring buffer**, in every interleaving of `push` and `pop`. What
has been popped is an initial part of what has been pushed; an element that is
moved out has been written, and its cell belongs to no producer; a cell that is
written to is empty; a `push` returns `false` only from a sequence load at which
all `2 ^ k` cells are claimed and not released. -/
theorem ring_buffer_safety {k : Nat} (hk : 1 ≤ k) {s : RingState α}
    (hs : (ringSystem α k).ReachVia (fun _ _ => True) s) :
    s.ring.popped <+: s.ring.pushed ∧
    (∀ q, s.consumer = .moveOut q → (s.ring.storage (slot k q)).isSome = true ∧
      ∀ p q', (s.producer p).inFlight = some q' → slot k q' ≠ slot k q) ∧
    (∀ p v q, s.producer p = .write v q → s.ring.storage (slot k q) = none) ∧
    (∀ p spurious s', s.step k (.produce p spurious) = .ok s' →
      s'.producer p = .returned false →
      (∃ v q, s.producer p = .loadSequence v q) ∧ s.ring.head = s.released + 2 ^ k) := by
  have h := ring_invariant hk hs
  refine ⟨?_, fun q hpc => ⟨?_, fun p q' hq' => h.slot_moveOut hpc hq'⟩,
    fun p v q hpc => h.storage_write hpc, fun p spurious s' hstep hret => ?_⟩
  · rw [h.popped]
    exact List.take_prefix _ _
  · obtain ⟨hholds, hstorage⟩ := h.storage_moveOut hpc
    rw [hstorage, List.getElem?_eq_getElem (by rw [h.length_pushed]; exact hholds.2.1)]
    rfl
  · simp only [RingState.step] at hstep
    split_ifs at hstep with hr
    cases hstep
    exact h.returned_false hk (by simpa using hr) (by simpa [RingState.produce] using hret)

/-- Two cells: position 0 is being moved out, position 1 is being written, and a
third `push` is about to find the ring full. -/
def fullRing : List (RingLabel Nat) :=
  [.push 0 10, .produce 0 false, .produce 0 false, .produce 0 false, .produce 0 false,
    .produce 0 false, .push 1 11, .produce 1 false, .produce 1 false, .produce 1 false,
    .push 2 12, .produce 2 false, .pop, .consume, .consume, .consume]

theorem ring_buffer_safety_full : ∃ s : RingState Nat,
    (ringSystem Nat 1).ReachVia (fun _ _ => True) s ∧
    (s.consumer = .moveOut 0 ∧ s.producer 1 = .write 11 1 ∧ s.producer 2 = .loadSequence 12 2) ∧
    s.ring.popped <+: s.ring.pushed ∧ (s.ring.storage (slot 1 0)).isSome = true ∧
    s.ring.storage (slot 1 1) = none ∧ s.ring.head = s.released + 2 := by
  have hrun : (ringSystem Nat 1).runsTo (fun _ _ => True)
      (fun s => (s.consumer = .moveOut 0 ∧ s.producer 1 = .write 11 1 ∧
        s.producer 2 = .loadSequence 12 2) ∧ (s.produce 1 2 false).producer 2 = .returned false)
      RingState.initial fullRing = true := by decide +kernel
  obtain ⟨s, hs, hP, hfalse⟩ := (Lts.ReachVia.init rfl).runsTo hrun
  obtain ⟨hpopped, hmoved, hwrite, hfull⟩ := ring_buffer_safety (Nat.le_refl 1) hs
  have hstep : s.step 1 (.produce 2 false) = .ok (s.produce 1 2 false) := by
    simp [RingState.step, hP.2.2, PushPc.isReturned]
  exact ⟨s, hs, hP, hpopped, (hmoved 0 hP.1).1, hwrite 1 11 1 hP.2.1,
    (hfull 2 false _ hstep hfalse).2⟩

/-! ## The ring as a bounded queue -/

/-- The elements that are claimed and not released, oldest first. -/
def RingState.queue (s : RingState α) : List α := s.ring.pushed.drop s.released

theorem RingInv.length_queue {k : Nat} {s : RingState α} (h : RingInv k s) :
    s.queue.length = s.ring.head - s.released := by
  rw [RingState.queue, List.length_drop, h.length_pushed]

/-- `push` appends to the queue when its compare-and-swap succeeds. -/
theorem RingInv.queue_produce {k : Nat} {s : RingState α} (h : RingInv k s) (p : Nat)
    (spurious : Bool) :
    (s.produce k p spurious).queue = s.queue ∨
    ∃ v q, s.producer p = .claim v q ∧ (s.produce k p spurious).producer p = .write v q ∧
      s.queue.length < 2 ^ k ∧ (s.produce k p spurious).queue = s.queue ++ [v] := by
  have hok := h.producer p
  have hlen := h.length_pushed
  obtain ⟨hreleased, hmoved, -⟩ := h.released_le
  have htail := h.tail_le
  cases hpc : s.producer p with
  | claim v q =>
    rw [hpc] at hok
    simp only [RingState.produce, Ring.push, hpc]
    split_ifs with hcas
    · obtain ⟨rfl, -⟩ := hcas
      have := hok.2 rfl
      refine .inr ⟨v, s.ring.head, rfl, by simp, by rw [h.length_queue]; omega, ?_⟩
      show (s.ring.pushed ++ [v]).drop s.released = s.ring.pushed.drop s.released ++ [v]
      rw [List.drop_append_of_le_length (by omega)]
    · exact .inl rfl
  | loadSequence v q =>
    refine .inl ?_
    simp only [RingState.produce, Ring.push, hpc]
    split_ifs <;> rfl
  | load | write | publish | returned => exact .inl (by rw [RingState.produce, hpc]; rfl)

/-- `pop` removes the oldest element of the queue when it releases the cell. -/
theorem RingInv.queue_consume {k : Nat} {s : RingState α} (h : RingInv k s) :
    (s.consume k).queue = s.queue ∨
    ∃ v, (s.consume k).consumer = .returned (some v) ∧ s.queue = v :: (s.consume k).queue := by
  have hok := h.consumer
  unfold RingState.queue
  cases hpc : s.consumer with
  | load => exact .inl (by simp only [RingState.consume, RingState.released, Ring.pop, hpc])
  | loadSequence q =>
    refine .inl ?_
    simp only [RingState.consume, RingState.released, Ring.pop, hpc]
    split_ifs <;> rfl
  | storeTail q =>
    rw [hpc] at hok
    exact .inl (by simp only [RingState.consume, RingState.released, Ring.pop, hpc, hok.1])
  | moveOut q => exact .inl (by simp only [RingState.consume, RingState.released, Ring.pop, hpc])
  | storeSequence q out =>
    rw [hpc] at hok
    obtain ⟨htail, hout⟩ := hok
    have hlt : q < s.ring.pushed.length := by
      have := h.tail_le
      rw [h.length_pushed]
      omega
    rw [List.getElem?_eq_getElem hlt] at hout
    refine .inr ⟨s.ring.pushed[q], ?_, ?_⟩
    · simp only [RingState.consume, Ring.pop, hpc, hout]
    · simp only [RingState.consume, RingState.released, Ring.pop, hpc, htail]
      exact List.drop_eq_getElem_cons hlt
  | returned out => exact .inl (by simp only [RingState.consume, RingState.released, Ring.pop, hpc])

/-- **The ring refines a bounded queue.** A step leaves the queue alone, or is a
successful compare-and-swap and appends the element while there is room, or is
the release of a cell, after which `pop` returns the oldest element. -/
theorem queue_step {k : Nat} {s s' : RingState α} {l : RingLabel α} (h : RingInv k s)
    (hstep : s.step k l = .ok s') :
    s'.queue = s.queue ∨
    (∃ p v q, s.producer p = .claim v q ∧ s'.producer p = .write v q ∧
      s.queue.length < 2 ^ k ∧ s'.queue = s.queue ++ [v]) ∨
    (∃ v, s'.consumer = .returned (some v) ∧ s.queue = v :: s'.queue) := by
  cases l with
  | push p v =>
    simp only [RingState.step] at hstep
    split_ifs at hstep
    cases hstep
    exact .inl rfl
  | produce p spurious =>
    simp only [RingState.step] at hstep
    split_ifs at hstep
    cases hstep
    exact (h.queue_produce p spurious).imp_right fun hcas => .inl ⟨p, hcas⟩
  | pop =>
    simp only [RingState.step] at hstep
    split_ifs at hstep with hr
    cases hstep
    refine .inl ?_
    rw [RingState.queue, RingState.queue, RingState.released_eq_tail (taking_of_isReturned hr)]
    rfl
  | consume =>
    simp only [RingState.step] at hstep
    split_ifs at hstep
    cases hstep
    exact h.queue_consume.imp_right .inr

end Inbox

end Cortos
