import Mathlib.Logic.Function.Basic
import Cortos.Lib.Transition

/-!
# The ring buffer of the inbox (`mpsc_ring_buffer.hpp`)

Any number of producers and one consumer over `N = 2 ^ k` cells. Each access to
an atomic variable is one step, and so are the construction of an element in its
cell and its move out; the steps of all parties interleave freely. Counters are
natural numbers, so a run stands for one in which no counter wraps.

`pushed` and `popped` are the elements in the order of the successful
compare-and-swaps on `head` and of the moves out of a cell; no step reads them.
-/

namespace Cortos

open Lib

namespace Inbox

variable {α : Type}

/-! ## The code -/

/-- The shared variables. A cell without an element has `storage = none`. -/
structure Ring (α : Type) where
  /-- The next position a producer claims. -/
  head : Nat
  /-- The next position the consumer takes. -/
  tail : Nat
  sequence : Nat → Nat
  storage : Nat → Option α
  pushed : List α
  popped : List α

/-- `position & mask`, where `mask = N - 1`. -/
def slot (k position : Nat) : Nat := position &&& (2 ^ k - 1)

/-- Where a producer is in `push`. -/
inductive PushPc (α : Type) where
  /-- Before `head.load`. -/
  | load (value : α)
  /-- At the head of the loop, before `cell.sequence.load`. -/
  | loadSequence (value : α) (position : Nat)
  /-- Before `head.compare_exchange_weak`. -/
  | claim (value : α) (position : Nat)
  /-- Before the element is constructed in its cell. -/
  | write (value : α) (position : Nat)
  /-- Before `cell.sequence.store`. -/
  | publish (position : Nat)
  | returned (ok : Bool)
  deriving DecidableEq

/-- Where the consumer is in `pop`. -/
inductive PopPc (α : Type) where
  /-- Before `tail.load`. -/
  | load
  /-- Before `cell.sequence.load`. -/
  | loadSequence (position : Nat)
  /-- Before `tail.store`. -/
  | storeTail (position : Nat)
  /-- Before the element is moved out and destroyed. -/
  | moveOut (position : Nat)
  /-- Before `cell.sequence.store`. -/
  | storeSequence (position : Nat) (out : Option α)
  | returned (out : Option α)
  deriving DecidableEq

/-- One step of `push`; `spurious` lets the weak compare-and-swap fail. A failed
one leaves the current `head` in `position`. -/
def Ring.push (k : Nat) (r : Ring α) (spurious : Bool) : PushPc α → Ring α × PushPc α
  | .load v => (r, .loadSequence v r.head)
  | .loadSequence v position =>
    let diff : Int := (r.sequence (slot k position) : Int) - position
    if diff = 0 then (r, .claim v position)
    else if diff < 0 then (r, .returned false)
    else (r, .load v)
  | .claim v position =>
    if r.head = position ∧ spurious = false then
      ({ r with head := position + 1, pushed := r.pushed ++ [v] }, .write v position)
    else (r, .loadSequence v r.head)
  | .write v position =>
    ({ r with storage := Function.update r.storage (slot k position) (some v) },
      .publish position)
  | .publish position =>
    ({ r with sequence := Function.update r.sequence (slot k position) (position + 1) },
      .returned true)
  | .returned ok => (r, .returned ok)

/-- One step of `pop`. -/
def Ring.pop (k : Nat) (r : Ring α) : PopPc α → Ring α × PopPc α
  | .load => (r, .loadSequence r.tail)
  | .loadSequence position =>
    let diff : Int := (r.sequence (slot k position) : Int) - (position + 1 : Nat)
    if diff = 0 then (r, .storeTail position) else (r, .returned none)
  | .storeTail position => ({ r with tail := position + 1 }, .moveOut position)
  | .moveOut position =>
    ({ r with
        storage := Function.update r.storage (slot k position) none
        popped := r.popped ++ (r.storage (slot k position)).toList },
      .storeSequence position (r.storage (slot k position)))
  | .storeSequence position out =>
    ({ r with sequence := Function.update r.sequence (slot k position) (position + 2 ^ k) },
      .returned out)
  | .returned out => (r, .returned out)

/-! ## The interleaving -/

/-- The ring with its producers and its consumer. -/
structure RingState (α : Type) where
  ring : Ring α
  producer : Nat → PushPc α
  consumer : PopPc α

/-- One step of the ring's users. -/
inductive RingLabel (α : Type) where
  /-- Producer `p` calls `push`. -/
  | push (p : Nat) (value : α)
  /-- Producer `p` takes a step of its call. -/
  | produce (p : Nat) (spurious : Bool)
  /-- The consumer calls `pop`. -/
  | pop
  /-- The consumer takes a step of its call. -/
  | consume

/-- The call has returned, or there is none. -/
def PushPc.isReturned : PushPc α → Bool
  | .returned _ => true
  | _ => false

def PopPc.isReturned : PopPc α → Bool
  | .returned _ => true
  | _ => false

namespace RingState

/-- Producer `p` takes a step of `push`. -/
def produce (k : Nat) (s : RingState α) (p : Nat) (spurious : Bool) : RingState α :=
  let next := s.ring.push k spurious (s.producer p)
  { s with ring := next.1, producer := Function.update s.producer p next.2 }

/-- The consumer takes a step of `pop`. -/
def consume (k : Nat) (s : RingState α) : RingState α :=
  let next := s.ring.pop k s.consumer
  { s with ring := next.1, consumer := next.2 }

/-- A step of the ring's users, if the label is enabled. -/
def step (k : Nat) (s : RingState α) : RingLabel α → Except Unit (RingState α)
  | .push p v =>
    if (s.producer p).isReturned then
      .ok { s with producer := Function.update s.producer p (.load v) }
    else .error ()
  | .produce p spurious =>
    if (s.producer p).isReturned then .error () else .ok (s.produce k p spurious)
  | .pop => if s.consumer.isReturned then .ok { s with consumer := .load } else .error ()
  | .consume => if s.consumer.isReturned then .error () else .ok (s.consume k)

/-- The constructor: cell `i` has sequence `i`. -/
def initial : RingState α where
  ring :=
    { head := 0, tail := 0, sequence := id, storage := fun _ => none, pushed := [], popped := [] }
  producer _ := .returned false
  consumer := .returned none

end RingState

/-- The ring buffer as a transition system. -/
def ringSystem (α : Type) (k : Nat) : Lts (RingState α) (RingLabel α) Unit where
  init s := s = RingState.initial
  step := RingState.step k

end Inbox

end Cortos
