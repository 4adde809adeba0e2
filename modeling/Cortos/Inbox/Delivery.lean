import Cortos.Inbox.RingInvariant

/-!
# Cross-core delivery (`post_to_inbox`, `drain_inbox` and the port's poke)

Any number of cores post requests to the inbox of one core, the receiver. A post
pushes the request, and then pokes the receiver unless another post has already
done so: it raises `inbox_poke_pending`, sets the pending bit of the port and
signals the condition variable. The receiver lowers `inbox_poke_pending` before
it drains, and in `cortos_port_idle` it sleeps until the pending bit is set.

A post that finds the flag raised relies on the poke of another one, and `pop`
stops early at a position that is claimed and not yet published. So the argument
is a chain: a request in the inbox is known to a producer that has still to look
at the flag, or the flag is raised, or the receiver is draining
(`Chain.announced`); and if the flag is raised the bit is about to be set, is
set, or the receiver is on its way to lower the flag (`Chain.poked`).

- `cross_core_delivery`: no request is handed over twice, and a receiver that
  sleeps while no post is in progress has been handed all of them.
- `asleep_not_pending`: such a receiver does not sleep on a pending bit.

A post is known by the position its request got in the inbox; `accepted` are the
posts that have returned `true`, and `delivered` the requests handed to
`set_thread_ready`. No step reads them.
-/

namespace Cortos

open Lib

namespace Inbox

variable {α : Type}

/-! ## The code -/

/-- Where a core is in `post_to_inbox` and `cortos_port_send_reschedule_ipi`.
After the push, with the position of its request. -/
inductive PostPc where
  /-- Not in a call. -/
  | idle
  /-- In `inbox.push`. -/
  | pushing
  /-- Before `inbox_poke_pending.compare_exchange_strong`. -/
  | casPoke (position : Nat)
  /-- Before `core_poke.pending.store`. -/
  | storePending (position : Nat)
  /-- Before `pthread_mutex_lock`. -/
  | lock (position : Nat)
  /-- Before `pthread_cond_signal`, holding the mutex. -/
  | signal (position : Nat)
  /-- Before `pthread_mutex_unlock`. -/
  | unlock (position : Nat)
  deriving DecidableEq

/-- Where the receiver is. -/
inductive ReceiverPc where
  /-- In a thread, outside `cortos_port_idle`. -/
  | thread
  /-- At the test of the pump loop, which a thread enters by
  `cortos_port_pend_reschedule`; `idle_task` does so after every
  `cortos_port_idle`. -/
  | pump
  /-- In `drain_inbox`, before `inbox_poke_pending.store`. -/
  | clear
  /-- In the loop of `drain_inbox`. -/
  | drain
  /-- In `cortos_port_idle`, before the exchange of the fast path. -/
  | fastPath
  /-- Before `pthread_mutex_lock`. -/
  | lock
  /-- Before the exchange of the loop, holding the mutex. -/
  | check
  /-- Before `pthread_cond_wait`, holding the mutex. -/
  | wait
  /-- Asleep in `pthread_cond_wait`. -/
  | asleep
  /-- In `pthread_cond_wait`, before it takes the mutex again. -/
  | woken
  /-- Before `pthread_mutex_unlock`; the pending bit has been consumed. -/
  | unlock
  /-- The pump loop has ended. -/
  | halted
  deriving DecidableEq

/-- The receiver and its posters. -/
structure DeliveryState (α : Type) where
  inbox : RingState α
  /-- `inbox_poke_pending`. -/
  poke : Bool
  /-- `core_poke.pending`. -/
  pending : Bool
  /-- `core_poke.mutex` is held. -/
  mutex : Bool
  post : Nat → PostPc
  receiver : ReceiverPc
  delivered : List α
  accepted : List Nat

/-- One step of the posters or the receiver. -/
inductive DeliveryLabel (α : Type) where
  /-- Core `p` calls `post_to_inbox`. -/
  | post (p : Nat) (request : α)
  /-- Core `p` takes a step of its call. -/
  | poster (p : Nat) (spurious : Bool)
  /-- The receiver takes a step. `choice` is what the model leaves open: whether
  a thread goes idle or reschedules, and whether the pump loop ends. -/
  | receiver (choice : Bool)

namespace DeliveryState

/-- Core `p` moves to `pc`. -/
def goto (s : DeliveryState α) (p : Nat) (pc : PostPc) : DeliveryState α :=
  { s with post := Function.update s.post p pc }

/-- The post of core `p` returns `true`. -/
def accept (s : DeliveryState α) (p position : Nat) : DeliveryState α :=
  { s.goto p .idle with accepted := s.accepted ++ [position] }

/-- Where `post_to_inbox` is after a step of `push`, which returns `true` once the
position is published. -/
def afterPush : PushPc α → PushPc α → PostPc
  | .publish position, _ => .casPoke position
  | _, .returned _ => .idle
  | _, _ => .pushing

/-- A step of `post_to_inbox` on core `p`. -/
def postStep (k : Nat) (s : DeliveryState α) (p : Nat) (spurious : Bool) :
    Except Unit (DeliveryState α) :=
  match s.post p with
  | .idle => .error ()
  | .pushing =>
    let inbox := s.inbox.produce k p spurious
    .ok { s.goto p (afterPush (s.inbox.producer p) (inbox.producer p)) with inbox := inbox }
  | .casPoke position =>
    .ok (if s.poke then s.accept p position
      else { s.goto p (.storePending position) with poke := true })
  | .storePending position => .ok { s.goto p (.lock position) with pending := true }
  | .lock position =>
    if s.mutex then .error () else .ok { s.goto p (.signal position) with mutex := true }
  | .signal position =>
    .ok { s.goto p (.unlock position) with
      receiver := if s.receiver = .asleep then .woken else s.receiver }
  | .unlock position => .ok { s.accept p position with mutex := false }

/-- A step of the receiver. -/
def receiverStep (k : Nat) (s : DeliveryState α) (choice : Bool) :
    Except Unit (DeliveryState α) :=
  match s.receiver with
  | .thread => .ok { s with receiver := if choice then .fastPath else .pump }
  | .pump => .ok { s with receiver := if choice then .halted else .clear }
  | .clear =>
    .ok { s with poke := false, inbox := { s.inbox with consumer := .load }, receiver := .drain }
  | .drain =>
    match s.inbox.consumer with
    | .returned none => .ok { s with receiver := .thread }
    | .returned (some request) =>
      .ok { s with
        delivered := s.delivered ++ [request], inbox := { s.inbox with consumer := .load } }
    | _ => .ok { s with inbox := s.inbox.consume k }
  | .fastPath =>
    .ok { s with pending := false, receiver := if s.pending then .pump else .lock }
  | .lock => if s.mutex then .error () else .ok { s with mutex := true, receiver := .check }
  | .check =>
    .ok { s with pending := false, receiver := if s.pending then .unlock else .wait }
  | .wait => .ok { s with mutex := false, receiver := .asleep }
  -- a spurious wake-up
  | .asleep => .ok { s with receiver := .woken }
  | .woken => if s.mutex then .error () else .ok { s with mutex := true, receiver := .check }
  | .unlock => .ok { s with mutex := false, receiver := .pump }
  | .halted => .error ()

/-- One step. -/
def step (k : Nat) (s : DeliveryState α) : DeliveryLabel α → Except Unit (DeliveryState α)
  | .post p request =>
    if s.post p = .idle then
      .ok { s.goto p .pushing with
        inbox := { s.inbox with
          producer := Function.update s.inbox.producer p (.load request) } }
    else .error ()
  | .poster p spurious => s.postStep k p spurious
  | .receiver choice => s.receiverStep k choice

/-- Nothing has been posted, and the receiver has started. -/
def initial : DeliveryState α where
  inbox := RingState.initial
  poke := false
  pending := false
  mutex := false
  post _ := .idle
  receiver := .thread
  delivered := []
  accepted := []

end DeliveryState

/-- The inbox of one core as a transition system. -/
def deliverySystem (α : Type) (k : Nat) : Lts (DeliveryState α) (DeliveryLabel α) Unit where
  init s := s = DeliveryState.initial
  step := DeliveryState.step k

/-! ## What a step can do -/

/-- The four outcomes of a step of `push` for the call it is part of. -/
inductive PushTrans (s s' : RingState α) (p : Nat) : PostPc → Prop where
  /-- The call goes on, with the same position as before. -/
  | proceed (hflight : (s'.producer p).inFlight = (s.producer p).inFlight)
      (hret : (s'.producer p).isReturned = false) (hhead : s'.ring.head = s.ring.head) :
      PushTrans s s' p .pushing
  /-- The compare-and-swap succeeds. -/
  | claim (hold : (s.producer p).inFlight = none)
      (hflight : (s'.producer p).inFlight = some s.ring.head)
      (hret : (s'.producer p).isReturned = false) (hhead : s'.ring.head = s.ring.head + 1) :
      PushTrans s s' p .pushing
  /-- The position is published. -/
  | publish {position : Nat} (hold : (s.producer p).inFlight = some position)
      (hret : (s'.producer p).isReturned = true) (hhead : s'.ring.head = s.ring.head) :
      PushTrans s s' p (.casPoke position)
  /-- The ring is full. -/
  | full (hold : (s.producer p).inFlight = none) (hret : (s'.producer p).isReturned = true)
      (hhead : s'.ring.head = s.ring.head) :
      PushTrans s s' p .idle

/-- A step of `push` leaves everything else alone. -/
theorem produce_frame (k : Nat) (s : RingState α) (p : Nat) (spurious : Bool) :
    (s.produce k p spurious).consumer = s.consumer ∧
    (s.produce k p spurious).ring.tail = s.ring.tail ∧
    (s.produce k p spurious).ring.popped = s.ring.popped ∧
    ∀ p' ≠ p, (s.produce k p spurious).producer p' = s.producer p' := by
  refine ⟨rfl, ?_, ?_, fun p' hne => Function.update_of_ne hne _ _⟩ <;>
    · simp only [RingState.produce]
      cases s.producer p <;> simp only [Ring.push] <;> split_ifs <;> rfl

theorem pushTrans (k : Nat) {s : RingState α} {p : Nat} (spurious : Bool)
    (hcall : (s.producer p).isReturned = false) :
    PushTrans s (s.produce k p spurious) p
      (DeliveryState.afterPush (s.producer p) ((s.produce k p spurious).producer p)) := by
  have hself : (s.produce k p spurious).producer p = (s.ring.push k spurious (s.producer p)).2 :=
    Function.update_self ..
  have hring : (s.produce k p spurious).ring = (s.ring.push k spurious (s.producer p)).1 := rfl
  rw [hself]
  cases hpc : s.producer p with
  | load v =>
    refine .proceed ?_ ?_ ?_ <;> simp only [hself, hring, hpc, Ring.push] <;> rfl
  | loadSequence v q =>
    simp only [Ring.push]
    split_ifs with hzero hneg
    · refine .proceed ?_ ?_ ?_ <;>
        simp only [hself, hring, hpc, Ring.push, if_pos hzero] <;> rfl
    · refine .full ?_ ?_ ?_ <;>
        simp only [hself, hring, hpc, Ring.push, if_neg hzero, if_pos hneg] <;> rfl
    · refine .proceed ?_ ?_ ?_ <;>
        simp only [hself, hring, hpc, Ring.push, if_neg hzero, if_neg hneg] <;> rfl
  | claim v q =>
    simp only [Ring.push]
    split_ifs with hcas
    · obtain ⟨rfl, rfl⟩ := hcas
      refine .claim ?_ ?_ ?_ ?_ <;>
        simp [hself, hring, hpc, Ring.push, PushPc.inFlight, PushPc.isReturned]
    · refine .proceed ?_ ?_ ?_ <;>
        simp only [hself, hring, hpc, Ring.push, if_neg hcas] <;> rfl
  | write v q =>
    refine .proceed ?_ ?_ ?_ <;> simp only [hself, hring, hpc, Ring.push] <;> rfl
  | publish q =>
    refine .publish ?_ ?_ ?_ <;> simp only [hself, hring, hpc, Ring.push] <;> rfl
  | returned ok => simp [hpc, PushPc.isReturned] at hcall

/-- What a step of a poster can do. -/
inductive PostTrans (k : Nat) (s : DeliveryState α) (p : Nat) : DeliveryState α → Prop where
  | call (hpc : s.post p = .idle) (request : α) :
      PostTrans k s p { s.goto p .pushing with
        inbox := { s.inbox with producer := Function.update s.inbox.producer p (.load request) } }
  | push {pc : PostPc} {spurious : Bool} (hpc : s.post p = .pushing)
      (hpush : (s.inbox.producer p).isReturned = false →
        PushTrans s.inbox (s.inbox.produce k p spurious) p pc) :
      PostTrans k s p { s.goto p pc with inbox := s.inbox.produce k p spurious }
  /-- Another post has raised the flag. -/
  | rely {position : Nat} (hpc : s.post p = .casPoke position) (hpoke : s.poke = true) :
      PostTrans k s p (s.accept p position)
  | raise {position : Nat} (hpc : s.post p = .casPoke position) (hpoke : s.poke = false) :
      PostTrans k s p { s.goto p (.storePending position) with poke := true }
  | storePending {position : Nat} (hpc : s.post p = .storePending position) :
      PostTrans k s p { s.goto p (.lock position) with pending := true }
  | lock {position : Nat} (hpc : s.post p = .lock position) (hfree : s.mutex = false) :
      PostTrans k s p { s.goto p (.signal position) with mutex := true }
  | signal {position : Nat} (hpc : s.post p = .signal position) :
      PostTrans k s p { s.goto p (.unlock position) with
        receiver := if s.receiver = .asleep then .woken else s.receiver }
  | unlock {position : Nat} (hpc : s.post p = .unlock position) :
      PostTrans k s p { s.accept p position with mutex := false }

/-- The receiver moves without touching shared variables. -/
inductive ReceiverPc.Moves : ReceiverPc → ReceiverPc → Prop where
  | goIdle : Moves .thread .fastPath
  | reschedule : Moves .thread .pump
  | pump : Moves .pump .clear
  | halt : Moves .pump .halted
  | spurious : Moves .asleep .woken

theorem ReceiverPc.Moves.ne_drain {pc pc' : ReceiverPc} (h : pc.Moves pc') : pc ≠ .drain := by
  cases h <;> nofun

/-- What a step of the receiver can do. -/
inductive ReceiverTrans (k : Nat) (s : DeliveryState α) : DeliveryState α → Prop where
  | move {pc : ReceiverPc} (hpc : s.receiver.Moves pc) : ReceiverTrans k s { s with receiver := pc }
  | clear (hpc : s.receiver = .clear) :
      ReceiverTrans k s { s with
        poke := false, inbox := { s.inbox with consumer := .load }, receiver := .drain }
  | pop (hpc : s.receiver = .drain) (hpop : s.inbox.consumer.isReturned = false) :
      ReceiverTrans k s { s with inbox := s.inbox.consume k, receiver := .drain }
  | deliver (hpc : s.receiver = .drain) {request : α}
      (hpop : s.inbox.consumer = .returned (some request)) :
      ReceiverTrans k s { s with
        delivered := s.delivered ++ [request], inbox := { s.inbox with consumer := .load },
        receiver := .drain }
  | drained (hpc : s.receiver = .drain) (hpop : s.inbox.consumer = .returned none) :
      ReceiverTrans k s { s with receiver := .thread }
  /-- The exchange finds the pending bit set. -/
  | consumed {pc : ReceiverPc} (hpc : s.receiver = .fastPath ∧ pc = .pump ∨
      s.receiver = .check ∧ pc = .unlock) (hpending : s.pending = true) :
      ReceiverTrans k s { s with pending := false, receiver := pc }
  /-- The exchange does not find the pending bit set. -/
  | missed {pc : ReceiverPc} (hpc : s.receiver = .fastPath ∧ pc = .lock ∨
      s.receiver = .check ∧ pc = .wait) (hpending : s.pending = false) :
      ReceiverTrans k s { s with pending := false, receiver := pc }
  | acquire (hpc : s.receiver = .lock ∨ s.receiver = .woken) (hfree : s.mutex = false) :
      ReceiverTrans k s { s with mutex := true, receiver := .check }
  | release {pc : ReceiverPc} (hpc : s.receiver = .wait ∧ pc = .asleep ∨
      s.receiver = .unlock ∧ pc = .pump) :
      ReceiverTrans k s { s with mutex := false, receiver := pc }

theorem postTrans_of_step {k : Nat} {s s' : DeliveryState α} {p : Nat} {spurious : Bool}
    (hstep : s.postStep k p spurious = .ok s') : PostTrans k s p s' := by
  unfold DeliveryState.postStep at hstep
  cases hpc : s.post p with
  | idle => simp [hpc] at hstep
  | pushing =>
    simp only [hpc, Except.ok.injEq] at hstep
    subst hstep
    exact .push hpc fun hcall => pushTrans k spurious hcall
  | casPoke position =>
    simp only [hpc, Except.ok.injEq] at hstep
    subst hstep
    split_ifs with hpoke
    · exact .rely hpc hpoke
    · exact .raise hpc (Bool.eq_false_of_not_eq_true hpoke)
  | storePending position =>
    simp only [hpc, Except.ok.injEq] at hstep
    subst hstep
    exact .storePending hpc
  | lock position =>
    simp only [hpc] at hstep
    split_ifs at hstep with hmutex
    cases hstep
    exact .lock hpc (Bool.eq_false_of_not_eq_true hmutex)
  | signal position =>
    simp only [hpc, Except.ok.injEq] at hstep
    subst hstep
    exact .signal hpc
  | unlock position =>
    simp only [hpc, Except.ok.injEq] at hstep
    subst hstep
    exact .unlock hpc

theorem receiverTrans_of_step {k : Nat} {s s' : DeliveryState α} {choice : Bool}
    (hstep : s.receiverStep k choice = .ok s') : ReceiverTrans k s s' := by
  unfold DeliveryState.receiverStep at hstep
  cases hpc : s.receiver with
  | thread =>
    simp only [hpc, Except.ok.injEq] at hstep
    subst hstep
    split_ifs
    · exact .move (hpc ▸ .goIdle)
    · exact .move (hpc ▸ .reschedule)
  | pump =>
    simp only [hpc, Except.ok.injEq] at hstep
    subst hstep
    split_ifs
    · exact .move (hpc ▸ .halt)
    · exact .move (hpc ▸ .pump)
  | clear =>
    simp only [hpc, Except.ok.injEq] at hstep
    subst hstep
    exact .clear hpc
  | drain =>
    simp only [hpc] at hstep
    split at hstep
    · cases hstep
      exact .drained hpc ‹_›
    · cases hstep
      exact .deliver hpc ‹_›
    · cases hstep
      refine .pop hpc ?_
      cases hc : s.inbox.consumer with
      | returned out => cases out <;> simp_all
      | _ => rfl
  | fastPath =>
    simp only [hpc, Except.ok.injEq] at hstep
    subst hstep
    split_ifs with hpending
    · exact .consumed (.inl ⟨hpc, rfl⟩) hpending
    · exact .missed (.inl ⟨hpc, rfl⟩) (Bool.eq_false_of_not_eq_true hpending)
  | lock =>
    simp only [hpc] at hstep
    split_ifs at hstep with hmutex
    cases hstep
    exact .acquire (.inl hpc) (Bool.eq_false_of_not_eq_true hmutex)
  | check =>
    simp only [hpc, Except.ok.injEq] at hstep
    subst hstep
    split_ifs with hpending
    · exact .consumed (.inr ⟨hpc, rfl⟩) hpending
    · exact .missed (.inr ⟨hpc, rfl⟩) (Bool.eq_false_of_not_eq_true hpending)
  | wait =>
    simp only [hpc, Except.ok.injEq] at hstep
    subst hstep
    exact .release (.inl ⟨hpc, rfl⟩)
  | asleep =>
    simp only [hpc, Except.ok.injEq] at hstep
    subst hstep
    exact .move (hpc ▸ .spurious)
  | woken =>
    simp only [hpc] at hstep
    split_ifs at hstep with hmutex
    cases hstep
    exact .acquire (.inr hpc) (Bool.eq_false_of_not_eq_true hmutex)
  | unlock =>
    simp only [hpc, Except.ok.injEq] at hstep
    subst hstep
    exact .release (.inr ⟨hpc, rfl⟩)
  | halted => simp [hpc] at hstep

theorem consume_head (k : Nat) (s : RingState α) : (s.consume k).ring.head = s.ring.head := by
  simp only [RingState.consume]
  cases s.consumer with
  | loadSequence q =>
    simp only [Ring.pop]
    split_ifs <;> rfl
  | _ => rfl

/-- When `pop` fails the inbox is empty, or its oldest position is claimed and not
yet published. -/
theorem consume_none {k : Nat} {s : RingState α} (h : RingInv k s)
    (hpop : s.consumer.isReturned = false) (hnone : (s.consume k).consumer = .returned none)
    (hlt : (s.consume k).ring.tail < (s.consume k).ring.head) :
    ∃ p, (s.producer p).inFlight = some s.ring.tail := by
  have hok := h.consumer
  cases hpc : s.consumer with
  | loadSequence q =>
    obtain rfl : q = s.ring.tail := by rwa [hpc] at hok
    have hreleased : s.released = s.ring.tail := RingState.released_eq_tail (by rw [hpc]; rfl)
    simp only [RingState.consume, Ring.pop, hpc] at hnone hlt
    split_ifs at hnone hlt with hzero
    by_contra hnot
    have hpub : s.Published s.ring.tail := ⟨hlt, fun p hp => hnot ⟨p, hp⟩⟩
    have := (h.sequence s.ring.tail hreleased.le (by have := Nat.two_pow_pos k; omega)).1 hpub
    omega
  | storeSequence q out =>
    obtain ⟨htail, hout⟩ : s.ring.tail = q + 1 ∧ s.ring.pushed[q]? = out := by rwa [hpc] at hok
    have : s.ring.pushed.length ≤ q := by
      rw [← List.getElem?_eq_none_iff, hout]
      simpa [RingState.consume, Ring.pop, hpc] using hnone
    have := h.tail_le
    rw [h.length_pushed] at *
    omega
  | load | storeTail | moveOut => simp [RingState.consume, Ring.pop, hpc] at hnone
  | returned out => simp [hpc, PopPc.isReturned] at hpop

/-! ## The parties and the ring -/

/-- What `pop` has moved out and not yet handed over. -/
def PopPc.out : PopPc α → Option α
  | .storeSequence _ out | .returned out => out
  | _ => none

/-- The ring is used as it should be: a core is in `push` exactly when it is in
`post_to_inbox`, only the drain loop is in `pop`, and what has been popped has
been handed over, up to the request at hand. -/
structure Control (k : Nat) (s : DeliveryState α) : Prop where
  ring : RingInv k s.inbox
  posting : ∀ p, (s.inbox.producer p).isReturned = false ↔ s.post p = .pushing
  receiving : s.receiver ≠ .drain → s.inbox.consumer = .returned none
  handed : s.inbox.ring.popped = s.delivered ++ s.inbox.consumer.out.toList

namespace Control

variable {k : Nat} {s s' : DeliveryState α} {p : Nat}

theorem initial (k : Nat) : Control k (DeliveryState.initial : DeliveryState α) where
  ring := RingInv.initial k
  posting _ := by simp [DeliveryState.initial, RingState.initial, PushPc.isReturned]
  receiving _ := rfl
  handed := rfl

/-- A step of `pop` moves out the element that it will return. -/
theorem popped_consume (h : Control k s) (hpop : s.inbox.consumer.isReturned = false) :
    (s.inbox.consume k).ring.popped = s.delivered ++ (s.inbox.consume k).consumer.out.toList := by
  have hhanded := h.handed
  cases hpc : s.inbox.consumer with
  | moveOut q => simp_all [RingState.consume, Ring.pop, PopPc.out]
  | loadSequence q =>
    simp only [RingState.consume, Ring.pop, hpc]
    split_ifs <;> simp_all [PopPc.out]
  | load | storeTail | storeSequence q out => simp_all [RingState.consume, Ring.pop, PopPc.out]
  | returned out => simp [hpc, PopPc.isReturned] at hpop

theorem receiver (h : Control k s) (htrans : ReceiverTrans k s s') : Control k s' := by
  cases htrans with
  | move hpc => exact { h with receiving := fun _ => h.receiving hpc.ne_drain }
  | clear hpc =>
    have hconsumer := h.receiving (by simp [hpc])
    refine { h with ring := ?_, receiving := fun hne => absurd rfl hne, handed := ?_ }
    · exact h.ring.setConsumer (by rw [hconsumer]; rfl) rfl trivial
    · exact h.handed.trans (by rw [hconsumer]; rfl)
  | pop hpc hpop =>
    exact
      { h with
        ring := h.ring.consume
        receiving := fun hne => absurd rfl hne
        handed := h.popped_consume hpop }
  | deliver hpc hpop =>
    refine { h with ring := ?_, receiving := fun hne => absurd rfl hne, handed := ?_ }
    · exact h.ring.setConsumer (by rw [hpop]; rfl) rfl trivial
    · exact h.handed.trans (by rw [hpop]; exact (List.append_nil _).symm)
  | drained hpc hpop => exact { h with receiving := fun _ => hpop }
  | consumed hpc _ | missed hpc _ | acquire hpc _ | release hpc =>
    exact { h with receiving := fun _ => h.receiving (by rcases hpc with hpc | hpc <;> simp [hpc]) }

/-- A poster that moves outside `push`. -/
theorem goto (h : Control k s) {pc : PostPc} (hold : s.post p ≠ .pushing) (hnew : pc ≠ .pushing)
    (hin : s'.inbox = s.inbox) (hpost : s'.post = Function.update s.post p pc)
    (hreceiver : s'.receiver = .drain ↔ s.receiver = .drain)
    (hdelivered : s'.delivered = s.delivered) : Control k s' where
  ring := hin ▸ h.ring
  posting p' := by
    rw [hin, hpost, h.posting p']
    rcases eq_or_ne p' p with rfl | hne
    · simp [hold, hnew]
    · rw [Function.update_of_ne hne]
  receiving hne := by
    rw [hin]
    exact h.receiving fun heq => hne (hreceiver.mpr heq)
  handed := by rw [hin, hdelivered, h.handed]

theorem poster (h : Control k s) (hk : 1 ≤ k) (htrans : PostTrans k s p s') : Control k s' := by
  cases htrans with
  | call hpc request =>
    have hret : (s.inbox.producer p).isReturned = true := by
      have := h.posting p
      simpa [hpc] using this
    refine { h with ring := h.ring.setProducer (inFlight_of_isReturned hret) rfl trivial,
                    posting := fun p' => ?_ }
    show (Function.update s.inbox.producer p (.load request) p').isReturned = false ↔
      Function.update s.post p .pushing p' = .pushing
    rcases eq_or_ne p' p with rfl | hne
    · simp [PushPc.isReturned]
    · rw [Function.update_of_ne hne, Function.update_of_ne hne, h.posting p']
  | @push pc spurious hpc hpush =>
    obtain ⟨hconsumer, -, hpopped, hothers⟩ := produce_frame k s.inbox p spurious
    refine { h with ring := h.ring.produce hk spurious, posting := fun p' => ?_, handed := ?_ }
    · show ((s.inbox.produce k p spurious).producer p').isReturned = false ↔
        Function.update s.post p pc p' = .pushing
      rcases eq_or_ne p' p with rfl | hne
      · rw [Function.update_self]
        cases hpush ((h.posting p').mpr hpc) <;> simp_all
      · rw [Function.update_of_ne hne, hothers p' hne, h.posting p']
    · exact hpopped.trans h.handed
  | rely hpc | raise hpc | storePending hpc | lock hpc =>
    exact h.goto (by simp [hpc]) (by simp) rfl rfl .rfl rfl
  | signal hpc =>
    refine h.goto (by simp [hpc]) (by simp) rfl rfl ?_ rfl
    show (if s.receiver = .asleep then ReceiverPc.woken else s.receiver) = .drain ↔ _
    split_ifs with hasleep <;> simp_all
  | unlock hpc => exact h.goto (by simp [hpc]) (by simp) rfl rfl .rfl rfl

end Control

/-! ## Which post a position belongs to -/

/-- Every claimed position belongs to exactly one post: one that is in progress,
or one that has returned `true`. -/
structure Owned (position : Nat → Option Nat) (accepted : List Nat) (head : Nat) : Prop where
  owner : ∀ q < head, q ∈ accepted ∨ ∃ p, position p = some q
  position_lt : ∀ p q, position p = some q → q < head ∧ q ∉ accepted
  distinct : ∀ p p' q, position p = some q → position p' = some q → p = p'
  accepted_lt : ∀ q ∈ accepted, q < head
  nodup : accepted.Nodup

namespace Owned

variable {position : Nat → Option Nat} {accepted : List Nat} {head p : Nat}

/-- A post claims the next position. -/
theorem claim (h : Owned position accepted head) (hp : position p = none) :
    Owned (Function.update position p (some head)) accepted (head + 1) where
  owner q hq := by
    rcases Nat.lt_succ_iff_lt_or_eq.mp hq with hlt | rfl
    · refine (h.owner q hlt).imp_right fun ⟨p', hp'⟩ => ⟨p', ?_⟩
      rwa [Function.update_of_ne (by rintro rfl; simp [hp] at hp')]
    · exact .inr ⟨p, Function.update_self ..⟩
  position_lt p' q hq := by
    rcases eq_or_ne p' p with rfl | hne
    · rw [Function.update_self, Option.some.injEq] at hq
      exact ⟨by omega, fun hmem => absurd (h.accepted_lt q hmem) (by omega)⟩
    · rw [Function.update_of_ne hne] at hq
      exact ⟨by have := (h.position_lt p' q hq).1; omega, (h.position_lt p' q hq).2⟩
  distinct p₁ p₂ q h₁ h₂ := by
    have hlt := h.position_lt
    have hdistinct := h.distinct p₁ p₂ q
    grind [Function.update_apply]
  accepted_lt q hq := Nat.lt_succ_of_lt (h.accepted_lt q hq)
  nodup := h.nodup

/-- A post returns `true`. -/
theorem accept (h : Owned position accepted head) {q₀ : Nat} (hp : position p = some q₀) :
    Owned (Function.update position p none) (accepted ++ [q₀]) head where
  owner q hq := by
    rcases eq_or_ne q q₀ with rfl | hne
    · exact .inl (by simp)
    · refine (h.owner q hq).imp (List.mem_append_left _) fun ⟨p', hp'⟩ => ⟨p', ?_⟩
      rwa [Function.update_of_ne]
      rintro rfl
      exact hne (Option.some.inj (hp'.symm.trans hp))
  position_lt p' q hq := by
    have hne : p' ≠ p := by
      rintro rfl
      simp at hq
    rw [Function.update_of_ne hne] at hq
    refine ⟨(h.position_lt p' q hq).1, fun hmem => ?_⟩
    rcases List.mem_append.mp hmem with hmem | hmem
    · exact (h.position_lt p' q hq).2 hmem
    · rw [List.mem_singleton.mp hmem] at hq
      exact hne (h.distinct p' p q₀ hq hp)
  distinct p₁ p₂ q h₁ h₂ := by
    have hdistinct := h.distinct p₁ p₂ q
    grind [Function.update_apply]
  accepted_lt q hq := by
    rcases List.mem_append.mp hq with hq | hq
    · exact h.accepted_lt q hq
    · exact List.mem_singleton.mp hq ▸ (h.position_lt p q₀ hp).1
  nodup := List.nodup_append.mpr ⟨h.nodup, by simp, fun q hq q' hq' => by
    rintro rfl
    exact (h.position_lt p q₀ hp).2 (List.mem_singleton.mp hq' ▸ hq)⟩

end Owned

/-- The position of a post in progress, once it has one. -/
def PostPc.position (producer : PushPc α) : PostPc → Option Nat
  | .idle => none
  | .pushing => producer.inFlight
  | .casPoke q | .storePending q | .lock q | .signal q | .unlock q => some q

/-- The position of the post in progress on core `p`. -/
def DeliveryState.position (s : DeliveryState α) (p : Nat) : Option Nat :=
  (s.post p).position (s.inbox.producer p)

section Posters

variable {k : Nat} {s s' : DeliveryState α} {p : Nat} {pc : PostPc}

theorem DeliveryState.position_update (hpost : s'.post = Function.update s.post p pc)
    (hprod : ∀ p' ≠ p, s'.inbox.producer p' = s.inbox.producer p') :
    s'.position = Function.update s.position p (pc.position (s'.inbox.producer p)) := by
  funext p'
  rcases eq_or_ne p' p with rfl | hne
  · simp [DeliveryState.position, hpost]
  · simp [DeliveryState.position, hpost, hprod p' hne, Function.update_of_ne hne]

/-- The positions belong to posts. -/
def DeliveryState.Owned (s : DeliveryState α) : Prop :=
  Inbox.Owned s.position s.accepted s.inbox.ring.head

/-- A poster moves and keeps its position. -/
theorem DeliveryState.Owned.keep (h : s.Owned) (hpost : s'.post = Function.update s.post p pc)
    (hprod : ∀ p' ≠ p, s'.inbox.producer p' = s.inbox.producer p')
    (hkeep : pc.position (s'.inbox.producer p) = s.position p)
    (haccepted : s'.accepted = s.accepted) (hhead : s'.inbox.ring.head = s.inbox.ring.head) :
    s'.Owned := by
  rw [DeliveryState.Owned, DeliveryState.position_update hpost hprod, hkeep,
    Function.update_eq_self, haccepted, hhead]
  exact h

/-- A poster claims the position at `head`. -/
theorem DeliveryState.Owned.claim (h : s.Owned) (hpost : s'.post = Function.update s.post p pc)
    (hprod : ∀ p' ≠ p, s'.inbox.producer p' = s.inbox.producer p')
    (hold : s.position p = none)
    (hclaim : pc.position (s'.inbox.producer p) = some s.inbox.ring.head)
    (haccepted : s'.accepted = s.accepted)
    (hhead : s'.inbox.ring.head = s.inbox.ring.head + 1) : s'.Owned := by
  rw [DeliveryState.Owned, DeliveryState.position_update hpost hprod, hclaim, haccepted, hhead]
  exact Inbox.Owned.claim h hold

/-- The post of a poster returns `true`. -/
theorem DeliveryState.Owned.accept (h : s.Owned) {q : Nat}
    (hpost : s'.post = Function.update s.post p .idle) (hin : s'.inbox = s.inbox)
    (hold : s.position p = some q) (haccepted : s'.accepted = s.accepted ++ [q]) : s'.Owned := by
  rw [DeliveryState.Owned, DeliveryState.position_update hpost fun _ _ => by rw [hin], haccepted,
    hin]
  exact Inbox.Owned.accept h hold

/-- A step of a poster keeps the positions, or claims one, or accepts one. -/
theorem PostTrans.owned (hcontrol : Control k s) (htrans : PostTrans k s p s') (h : s.Owned) :
    s'.Owned := by
  have hpos : s.position p = (s.post p).position (s.inbox.producer p) := rfl
  cases htrans with
  | call hpc request =>
    refine h.keep rfl (fun p' hne => Function.update_of_ne hne _ _) ?_ rfl rfl
    rw [hpos, hpc]
    simp [PostPc.position, PushPc.inFlight]
  | @push pc spurious hpc hpush =>
    obtain ⟨-, -, -, hothers⟩ := produce_frame k s.inbox p spurious
    rw [hpc] at hpos
    cases hpush ((hcontrol.posting p).mpr hpc) with
    | proceed hflight _ hhead => exact h.keep rfl hothers (hflight.trans hpos.symm) rfl hhead
    | claim hold hflight _ hhead => exact h.claim rfl hothers (hpos.trans hold) hflight rfl hhead
    | publish hold _ hhead => exact h.keep rfl hothers (hpos.trans hold).symm rfl hhead
    | full hold _ hhead => exact h.keep rfl hothers (hpos.trans hold).symm rfl hhead
  | rely hpc _ => exact h.accept rfl rfl (by rw [hpos, hpc]; rfl) rfl
  | raise hpc _ | storePending hpc | lock hpc _ | signal hpc =>
    exact h.keep rfl (fun _ _ => rfl) (by rw [hpos, hpc]; rfl) rfl rfl
  | unlock hpc => exact h.accept rfl rfl (by rw [hpos, hpc]; rfl) rfl

/-- The receiver does not touch positions. -/
theorem ReceiverTrans.owned (htrans : ReceiverTrans k s s') (h : s.Owned) : s'.Owned := by
  cases htrans with
  | pop hpc hpop =>
    show Inbox.Owned _ _ (s.inbox.consume k).ring.head
    rw [consume_head]
    exact h
  | _ => exact h

end Posters

/-! ## The chain from a request to the receiver -/

/-- The post has a position and has not looked at the flag yet. -/
def PostPc.unannounced (producer : PushPc α) : PostPc → Bool
  | .pushing => producer.inFlight.isSome
  | .casPoke _ => true
  | _ => false

/-- The receiver will drain before it sleeps again, if it does. -/
def ReceiverPc.willClear : ReceiverPc → Bool
  | .unlock | .pump | .clear | .halted => true
  | _ => false

/-- The receiver is in the drain loop, and has not found the inbox empty. -/
def DeliveryState.Draining (s : DeliveryState α) : Prop :=
  s.receiver = .drain ∧ s.inbox.consumer ≠ .returned none

theorem ReceiverPc.Moves.willClear {pc pc' : ReceiverPc} (h : pc.Moves pc')
    (hclear : pc.willClear = true) : pc'.willClear = true := by
  cases h <;> first | rfl | exact hclear

/-- A producer with a position in flight has not looked at the flag yet. -/
theorem Control.unannounced {k : Nat} {s : DeliveryState α} {p q : Nat} (h : Control k s)
    (hp : (s.inbox.producer p).inFlight = some q) :
    (s.post p).unannounced (s.inbox.producer p) = true := by
  have hcall : (s.inbox.producer p).isReturned = false := by
    by_contra hret
    rw [inFlight_of_isReturned (Bool.eq_true_of_not_eq_false hret)] at hp
    cases hp
  rw [(h.posting p).mp hcall, PostPc.unannounced, hp]
  rfl

/-- Who keeps a request from being forgotten. -/
structure Chain (s : DeliveryState α) : Prop where
  announced : s.inbox.ring.tail < s.inbox.ring.head →
    (∃ p, (s.post p).unannounced (s.inbox.producer p) = true) ∨ s.poke = true ∨ s.Draining
  poked : s.poke = true →
    (∃ p q, s.post p = .storePending q) ∨ s.pending = true ∨ s.receiver.willClear = true

namespace Chain

variable {k : Nat} {s s' : DeliveryState α} {p : Nat}

/-- A poster moves to `pc`, with what it owes the chain: a new position makes it
unannounced, it stops being so only when the flag is raised, and it leaves
`storePending` only by setting the bit. -/
theorem goto (h : Chain s) {pc : PostPc} (hpost : s'.post = Function.update s.post p pc)
    (hprod : ∀ p' ≠ p, s'.inbox.producer p' = s.inbox.producer p')
    (htail : s'.inbox.ring.tail = s.inbox.ring.tail)
    (hhead : s'.inbox.ring.head = s.inbox.ring.head ∨
      pc.unannounced (s'.inbox.producer p) = true)
    (hold : (s.post p).unannounced (s.inbox.producer p) = true →
      pc.unannounced (s'.inbox.producer p) = true ∨ s'.poke = true)
    (hpoke : s.poke = true → s'.poke = true)
    (hraise : s'.poke = true → s.poke = true ∨ ∃ q, pc = .storePending q)
    (hstored : ∀ q, s.post p = .storePending q → s'.pending = true)
    (hpending : s.pending = true → s'.pending = true) (hdraining : s.Draining → s'.Draining)
    (hclear : s.receiver.willClear = true → s'.receiver.willClear = true) : Chain s' := by
  have hself : s'.post p = pc := by rw [hpost, Function.update_self]
  have hothers (p' : Nat) (hne : p' ≠ p) : s'.post p' = s.post p' := by
    rw [hpost, Function.update_of_ne hne]
  have hnew : pc.unannounced (s'.inbox.producer p) = true →
      ∃ p', (s'.post p').unannounced (s'.inbox.producer p') = true := fun hpc => ⟨p, by rwa [hself]⟩
  refine ⟨fun hlt => ?_, fun hraised => ?_⟩
  · rcases hhead with hhead | hpc
    · rcases h.announced (by omega) with ⟨p', hp'⟩ | hraised | hdrain
      · rcases eq_or_ne p' p with rfl | hne
        · exact (hold hp').elim (fun hpc => .inl (hnew hpc)) fun hraised => .inr (.inl hraised)
        · exact .inl ⟨p', by rwa [hothers p' hne, hprod p' hne]⟩
      · exact .inr (.inl (hpoke hraised))
      · exact .inr (.inr (hdraining hdrain))
    · exact .inl (hnew hpc)
  · rcases hraise hraised with hraised | ⟨q, rfl⟩
    · rcases h.poked hraised with ⟨p', q, hp'⟩ | hset | hwill
      · rcases eq_or_ne p' p with rfl | hne
        · exact .inr (.inl (hstored q hp'))
        · exact .inl ⟨p', q, by rwa [hothers p' hne]⟩
      · exact .inr (.inl (hpending hset))
      · exact .inr (.inr (hclear hwill))
    · exact .inl ⟨p, q, hself⟩

theorem poster (hcontrol : Control k s) (h : Chain s) (htrans : PostTrans k s p s') : Chain s' := by
  cases htrans with
  | call hpc request =>
    exact h.goto rfl (fun p' hne => Function.update_of_ne hne _ _) rfl (.inl rfl)
      (by simp [hpc, PostPc.unannounced]) id .inl (by simp [hpc]) id id id
  | @push pc spurious hpc hpush =>
    obtain ⟨hconsumer, htail, -, hothers⟩ := produce_frame k s.inbox p spurious
    have hstored (q : Nat) (hq : s.post p = .storePending q) : s.pending = true := by
      simp [hpc] at hq
    have hflight_old : (s.post p).unannounced (s.inbox.producer p) =
        (s.inbox.producer p).inFlight.isSome := by rw [hpc]; rfl
    cases hpush ((hcontrol.posting p).mpr hpc) with
    | proceed hflight _ hhead =>
      refine h.goto rfl hothers htail (.inl hhead) (fun hold => .inl ?_) id .inl hstored id id id
      rw [hflight_old, ← hflight] at hold
      exact hold
    | claim hold hflight _ hhead =>
      have hnew :
          PostPc.unannounced ((s.inbox.produce k p spurious).producer p) .pushing = true := by
        rw [PostPc.unannounced, hflight]
        rfl
      exact h.goto rfl hothers htail (.inr hnew) (fun _ => .inl hnew) id .inl hstored id id id
    | publish hold _ hhead =>
      exact h.goto rfl hothers htail (.inl hhead) (fun _ => .inl rfl) id .inl hstored id id id
    | full hold _ hhead =>
      refine h.goto rfl hothers htail (.inl hhead) (fun hsome => ?_) id .inl hstored id id id
      rw [hflight_old, hold] at hsome
      cases hsome
  | rely hpc hpoke =>
    exact h.goto rfl (fun _ _ => rfl) rfl (.inl rfl) (fun _ => .inr hpoke) id .inl
      (by simp [hpc]) id id id
  | raise hpc _ =>
    exact h.goto rfl (fun _ _ => rfl) rfl (.inl rfl) (fun _ => .inr rfl) (fun _ => rfl)
      (fun _ => .inr ⟨_, rfl⟩) (by simp [hpc]) id id id
  | storePending hpc =>
    exact h.goto rfl (fun _ _ => rfl) rfl (.inl rfl) (by simp [hpc, PostPc.unannounced]) id .inl
      (fun _ _ => rfl) (fun _ => rfl) id id
  | lock hpc _ =>
    exact h.goto rfl (fun _ _ => rfl) rfl (.inl rfl) (by simp [hpc, PostPc.unannounced]) id .inl
      (by simp [hpc]) id id id
  | signal hpc =>
    refine h.goto rfl (fun _ _ => rfl) rfl (.inl rfl) (by simp [hpc, PostPc.unannounced]) id .inl
      (by simp [hpc]) id (fun hdrain => ⟨?_, hdrain.2⟩) fun hwill => ?_
    · show (if s.receiver = .asleep then ReceiverPc.woken else s.receiver) = .drain
      rw [hdrain.1, if_neg (by decide)]
    · show (if s.receiver = .asleep then ReceiverPc.woken else s.receiver).willClear = true
      rwa [if_neg (by rintro hasleep; simp [hasleep, ReceiverPc.willClear] at hwill)]
  | unlock hpc =>
    exact h.goto rfl (fun _ _ => rfl) rfl (.inl rfl) (by simp [hpc, PostPc.unannounced]) id .inl
      (by simp [hpc]) id id id

/-- The receiver moves outside the drain loop. -/
theorem setReceiver (h : Chain s) (hin : s'.inbox = s.inbox) (hpost : s'.post = s.post)
    (hpoke : s'.poke = s.poke) (hdrain : ¬ s.Draining)
    (hpoked : s.pending = true ∨ s.receiver.willClear = true →
      s'.pending = true ∨ s'.receiver.willClear = true) : Chain s' where
  announced hlt := by
    rw [hin] at hlt
    rw [hin, hpost, hpoke]
    exact (h.announced hlt).imp_right (Or.imp_right fun hd => absurd hd hdrain)
  poked hp := by
    rw [hpoke] at hp
    rw [hpost]
    exact (h.poked hp).imp_right hpoked

theorem receiver (hcontrol : Control k s) (h : Chain s) (htrans : ReceiverTrans k s s') :
    Chain s' := by
  have hne {pc : ReceiverPc} (hpc : s.receiver = pc) (hpc' : pc ≠ .drain) : ¬ s.Draining :=
    fun hd => hpc' (hpc.symm.trans hd.1)
  cases htrans with
  | move hpc =>
    exact h.setReceiver rfl rfl rfl (fun hd => hpc.ne_drain hd.1) (Or.imp_right hpc.willClear)
  | clear hpc => exact ⟨fun _ => .inr (.inr ⟨rfl, nofun⟩), nofun⟩
  | pop hpc hpop =>
    refine ⟨fun hlt => ?_, fun hp => (h.poked hp).imp_right (Or.imp_right ?_)⟩
    · by_cases hnone : (s.inbox.consume k).consumer = .returned none
      · obtain ⟨p, hp⟩ := consume_none hcontrol.ring hpop hnone hlt
        exact .inl ⟨p, hcontrol.unannounced hp⟩
      · exact .inr (.inr ⟨rfl, hnone⟩)
    · rw [hpc]
      exact id
  | deliver hpc hpop =>
    refine ⟨fun _ => .inr (.inr ⟨rfl, nofun⟩), fun hp => (h.poked hp).imp_right (Or.imp_right ?_)⟩
    rw [hpc]
    exact id
  | drained hpc hpop =>
    exact h.setReceiver rfl rfl rfl (fun hd => hd.2 hpop) (by simp [hpc, ReceiverPc.willClear])
  | consumed hpc hpending =>
    rcases hpc with ⟨hpc, rfl⟩ | ⟨hpc, rfl⟩
    · exact h.setReceiver rfl rfl rfl (hne hpc nofun) fun _ => .inr rfl
    · exact h.setReceiver rfl rfl rfl (hne hpc nofun) fun _ => .inr rfl
  | missed hpc hpending =>
    rcases hpc with ⟨hpc, rfl⟩ | ⟨hpc, rfl⟩
    · exact h.setReceiver rfl rfl rfl (hne hpc nofun)
        (by simp [hpc, hpending, ReceiverPc.willClear])
    · exact h.setReceiver rfl rfl rfl (hne hpc nofun)
        (by simp [hpc, hpending, ReceiverPc.willClear])
  | acquire hpc hfree =>
    rcases hpc with hpc | hpc
    · exact h.setReceiver rfl rfl rfl (hne hpc nofun) (by simp [hpc, ReceiverPc.willClear])
    · exact h.setReceiver rfl rfl rfl (hne hpc nofun) (by simp [hpc, ReceiverPc.willClear])
  | release hpc =>
    rcases hpc with ⟨hpc, rfl⟩ | ⟨hpc, rfl⟩
    · exact h.setReceiver rfl rfl rfl (hne hpc nofun) (by simp [hpc, ReceiverPc.willClear])
    · exact h.setReceiver rfl rfl rfl (hne hpc nofun) fun _ => .inr rfl

end Chain

/-! ## The mutex and the condition variable -/

/-- The poster holds the mutex. -/
def PostPc.holdsMutex : PostPc → Bool
  | .signal _ | .unlock _ => true
  | _ => false

/-- The receiver holds the mutex. -/
def ReceiverPc.holdsMutex : ReceiverPc → Bool
  | .check | .wait | .unlock => true
  | _ => false

/-- The poster has set the pending bit and has still to signal. -/
def PostPc.willSignal : PostPc → Bool
  | .lock _ | .signal _ => true
  | _ => false

theorem ReceiverPc.Moves.awake {pc pc' : ReceiverPc} (h : pc.Moves pc') :
    pc'.holdsMutex = false ∧ pc' ≠ .asleep := by
  cases h <;> exact ⟨rfl, nofun⟩

/-- The mutex has one holder, and a bit that is set while the receiver is asleep,
or about to be, is followed by a signal. -/
structure Wakes (s : DeliveryState α) : Prop where
  poster : ∀ p, (s.post p).holdsMutex = true → s.mutex = true ∧ s.receiver.holdsMutex = false
  posters : ∀ p p', (s.post p).holdsMutex = true → (s.post p').holdsMutex = true → p = p'
  receiver : s.receiver.holdsMutex = true → s.mutex = true
  signalled : s.pending = true → s.receiver = .wait ∨ s.receiver = .asleep →
    ∃ p, (s.post p).willSignal = true

namespace Wakes

variable {k : Nat} {s s' : DeliveryState α} {p : Nat}

/-- Nobody else holds the mutex while the receiver does. -/
theorem not_holdsMutex (h : Wakes s) (hr : s.receiver.holdsMutex = true) (p : Nat) :
    (s.post p).holdsMutex = false := by
  by_contra hp
  rw [(h.poster p (Bool.eq_true_of_not_eq_false hp)).2] at hr
  cases hr

/-- Nobody holds a free mutex. -/
theorem not_holdsMutex_of_free (h : Wakes s) (hfree : s.mutex = false) (p : Nat) :
    (s.post p).holdsMutex = false := by
  by_contra hp
  rw [(h.poster p (Bool.eq_true_of_not_eq_false hp)).1] at hfree
  cases hfree

/-- The receiver moves to a point at which it neither holds the mutex nor is
asleep, and leaves the mutex alone. -/
theorem setReceiver (h : Wakes s) (hpost : s'.post = s.post) (hmutex : s'.mutex = s.mutex)
    (hhold : s'.receiver.holdsMutex = false) (hwait : s'.receiver ≠ .asleep) : Wakes s' where
  poster p hp := by
    rw [hpost] at hp
    exact ⟨hmutex.trans (h.poster p hp).1, hhold⟩
  posters p p' := by
    rw [hpost]
    exact h.posters p p'
  receiver hr := by
    rw [hhold] at hr
    cases hr
  signalled _ hr := by
    rcases hr with hr | hr
    · rw [hr] at hhold
      cases hhold
    · exact absurd hr hwait

/-- The receiver moves while no poster holds the mutex. -/
theorem setReceiver_of_free (h : Wakes s) (hpost : s'.post = s.post)
    (hfree : ∀ p, (s.post p).holdsMutex = false)
    (hmutex : s'.receiver.holdsMutex = true → s'.mutex = true)
    (hsignalled : s'.pending = true → s'.receiver = .wait ∨ s'.receiver = .asleep →
      ∃ p, (s.post p).willSignal = true) : Wakes s' where
  poster p hp := by
    rw [hpost, hfree p] at hp
    cases hp
  posters p p' := by
    rw [hpost]
    exact h.posters p p'
  receiver := hmutex
  signalled := by
    rw [hpost]
    exact hsignalled

theorem receiverTrans (h : Wakes s) (htrans : ReceiverTrans k s s') : Wakes s' := by
  cases htrans with
  | move hpc =>
    obtain ⟨hhold, hasleep⟩ := hpc.awake
    exact h.setReceiver rfl rfl hhold hasleep
  | clear | pop | deliver | drained => exact h.setReceiver rfl rfl rfl nofun
  | consumed hpc | missed hpc =>
    rcases hpc with ⟨hpc, rfl⟩ | ⟨hpc, rfl⟩
    · exact h.setReceiver rfl rfl rfl nofun
    · have hr : s.receiver.holdsMutex = true := by rw [hpc]; rfl
      exact h.setReceiver_of_free rfl (h.not_holdsMutex hr) (fun _ => h.receiver hr) nofun
  | acquire hpc hfree =>
    exact h.setReceiver_of_free rfl (h.not_holdsMutex_of_free hfree) (fun _ => rfl)
      (fun _ hr => by rcases hr with hr | hr <;> cases hr)
  | release hpc =>
    rcases hpc with ⟨hpc, rfl⟩ | ⟨hpc, rfl⟩
    · have hr : s.receiver.holdsMutex = true := by rw [hpc]; rfl
      exact h.setReceiver_of_free rfl (h.not_holdsMutex hr) nofun
        fun hpending _ => h.signalled hpending (.inl hpc)
    · have hr : s.receiver.holdsMutex = true := by rw [hpc]; rfl
      exact h.setReceiver_of_free rfl (h.not_holdsMutex hr) nofun
        (fun _ hr => by rcases hr with hr | hr <;> cases hr)

/-- A poster moves to `pc`. If it holds the mutex there nobody else does, and if
it no longer owes a signal the receiver does not wait for it. -/
theorem goto (h : Wakes s) {pc : PostPc} (hpost : s'.post = Function.update s.post p pc)
    (hhold : pc.holdsMutex = true → (s'.mutex = true ∧ s'.receiver.holdsMutex = false) ∧
      ∀ p' ≠ p, (s.post p').holdsMutex = false)
    (hothers : ∀ p' ≠ p, (s.post p').holdsMutex = true →
      s'.mutex = true ∧ s'.receiver.holdsMutex = false)
    (hreceiver : s'.receiver.holdsMutex = true → s'.mutex = true)
    (hsignalled : s'.pending = true → s'.receiver = .wait ∨ s'.receiver = .asleep →
      pc.willSignal = true ∨ ∃ p' ≠ p, (s.post p').willSignal = true) : Wakes s' where
  poster p' hp' := by
    rw [hpost] at hp'
    rcases eq_or_ne p' p with rfl | hne
    · rw [Function.update_self] at hp'
      exact (hhold hp').1
    · rw [Function.update_of_ne hne] at hp'
      exact hothers p' hne hp'
  posters p₁ p₂ h₁ h₂ := by
    rw [hpost] at h₁ h₂
    have hold := h.posters p₁ p₂
    grind [Function.update_apply]
  receiver := hreceiver
  signalled hpending hwait := by
    rw [hpost]
    rcases hsignalled hpending hwait with hpc | ⟨p', hne, hp'⟩
    · exact ⟨p, by rwa [Function.update_self]⟩
    · exact ⟨p', by rwa [Function.update_of_ne hne]⟩

/-- A poster moves outside the critical section and owes no signal before. -/
theorem goto_outside (h : Wakes s) {pc : PostPc} (hpost : s'.post = Function.update s.post p pc)
    (hhold : pc.holdsMutex = false) (hmutex : s'.mutex = s.mutex)
    (hreceiver : s'.receiver = s.receiver) (hold : (s.post p).willSignal = false)
    (hpending : s'.pending = s.pending ∨ pc.willSignal = true) : Wakes s' := by
  refine h.goto hpost ?_ (fun p' _ hp' => ?_) ?_ (fun hset hwait => ?_)
  · rw [hhold]
    nofun
  · rw [hmutex, hreceiver]
    exact h.poster p' hp'
  · rw [hmutex, hreceiver]
    exact h.receiver
  · rcases hpending with hpending | hpc
    · rw [hpending] at hset
      rw [hreceiver] at hwait
      obtain ⟨p', hp'⟩ := h.signalled hset hwait
      refine .inr ⟨p', ?_, hp'⟩
      rintro rfl
      rw [hold] at hp'
      cases hp'
    · exact .inl hpc

theorem posterTrans (hcontrol : Control k s) (h : Wakes s) (htrans : PostTrans k s p s') :
    Wakes s' := by
  cases htrans with
  | call hpc request => exact h.goto_outside rfl rfl rfl rfl (by rw [hpc]; rfl) (.inl rfl)
  | @push pc spurious hpc hpush =>
    have hhold : pc.holdsMutex = false := by
      cases hpush ((hcontrol.posting p).mpr hpc) <;> rfl
    exact h.goto_outside rfl hhold rfl rfl (by rw [hpc]; rfl) (.inl rfl)
  | rely hpc _ => exact h.goto_outside rfl rfl rfl rfl (by rw [hpc]; rfl) (.inl rfl)
  | raise hpc _ => exact h.goto_outside rfl rfl rfl rfl (by rw [hpc]; rfl) (.inl rfl)
  | storePending hpc => exact h.goto_outside rfl rfl rfl rfl (by rw [hpc]; rfl) (.inr rfl)
  | lock hpc hfree =>
    have hnone := h.not_holdsMutex_of_free hfree
    have hreceiver : s.receiver.holdsMutex = false := by
      by_contra hr
      rw [h.receiver (Bool.eq_true_of_not_eq_false hr)] at hfree
      cases hfree
    exact h.goto rfl (fun _ => ⟨⟨rfl, hreceiver⟩, fun p' _ => hnone p'⟩)
      (fun p' _ hp' => by rw [hnone p'] at hp'; cases hp') (fun _ => rfl) fun _ _ => .inl rfl
  | signal hpc =>
    have hp : (s.post p).holdsMutex = true := by rw [hpc]; rfl
    obtain ⟨hmutex, hreceiver⟩ := h.poster p hp
    have hhold :
        (if s.receiver = .asleep then ReceiverPc.woken else s.receiver).holdsMutex = false := by
      split_ifs
      · rfl
      · exact hreceiver
    refine h.goto rfl (fun _ => ⟨⟨hmutex, hhold⟩, fun p' hne => ?_⟩) (fun _ _ _ => ⟨hmutex, hhold⟩)
      (fun _ => hmutex) (fun _ hwait => ?_)
    · by_contra hp'
      exact hne (h.posters p' p (Bool.eq_true_of_not_eq_false hp') hp)
    · have hawake : (if s.receiver = .asleep then ReceiverPc.woken else s.receiver) = .wait ∨
          (if s.receiver = .asleep then ReceiverPc.woken else s.receiver) = .asleep := hwait
      -- a receiver about to wait would hold the mutex
      split_ifs at hawake with hasleep
      · rcases hawake with hr | hr <;> cases hr
      · rcases hawake with hr | hr
        · rw [hr] at hreceiver
          cases hreceiver
        · exact absurd hr hasleep
  | unlock hpc =>
    have hp : (s.post p).holdsMutex = true := by rw [hpc]; rfl
    obtain ⟨-, hreceiver⟩ := h.poster p hp
    refine h.goto rfl nofun (fun p' hne hp' => absurd (h.posters p' p hp' hp) hne) (fun hr => ?_)
      (fun hpending hwait => ?_)
    · exact absurd (hr.symm.trans hreceiver) nofun
    · obtain ⟨p', hp'⟩ := h.signalled hpending hwait
      refine .inr ⟨p', ?_, hp'⟩
      rintro rfl
      rw [hpc] at hp'
      cases hp'

end Wakes

/-! ## Delivery -/

/-- The invariant of the inbox of a core. -/
structure DeliveryInv (k : Nat) (s : DeliveryState α) : Prop where
  control : Control k s
  owned : s.Owned
  chain : Chain s
  wakes : Wakes s

theorem DeliveryInv.initial (k : Nat) :
    DeliveryInv k (DeliveryState.initial : DeliveryState α) where
  control := Control.initial k
  owned := ⟨nofun, nofun, nofun, nofun, List.nodup_nil⟩
  chain := ⟨nofun, nofun⟩
  wakes := ⟨nofun, nofun, nofun, nofun⟩

/-- One step of any party keeps the invariant. -/
theorem DeliveryInv.step {k : Nat} {s s' : DeliveryState α} {l : DeliveryLabel α}
    (h : DeliveryInv k s) (hk : 1 ≤ k) (hstep : s.step k l = .ok s') : DeliveryInv k s' := by
  have hposter {p : Nat} (htrans : PostTrans k s p s') : DeliveryInv k s' :=
    ⟨h.control.poster hk htrans, htrans.owned h.control h.owned, h.chain.poster h.control htrans,
      h.wakes.posterTrans h.control htrans⟩
  cases l with
  | post p request =>
    simp only [DeliveryState.step] at hstep
    split_ifs at hstep with hpc
    cases hstep
    exact hposter (.call hpc request)
  | poster p spurious => exact hposter (postTrans_of_step hstep)
  | receiver choice =>
    have htrans := receiverTrans_of_step hstep
    exact ⟨h.control.receiver htrans, htrans.owned h.owned, h.chain.receiver h.control htrans,
      h.wakes.receiverTrans htrans⟩

/-- The invariant holds in every reachable state. -/
theorem delivery_invariant {k : Nat} (hk : 1 ≤ k) {s : DeliveryState α}
    (hs : (deliverySystem α k).ReachVia (fun _ _ => True) s) : DeliveryInv k s :=
  hs.invariant (fun _ h => h ▸ DeliveryInv.initial k) fun _ _ _ _ h _ hstep => h.step hk hstep

/-- The inbox is empty: every claimed position has been released. -/
theorem DeliveryInv.inbox_empty {k : Nat} {s : DeliveryState α} (h : DeliveryInv k s)
    (hpost : ∀ p, s.post p = .idle) (hasleep : s.receiver = .asleep)
    (hpending : s.pending = false) :
    s.inbox.ring.tail = s.inbox.ring.head := by
  have hpoke : ¬ s.poke = true := fun hp => by
    rcases h.chain.poked hp with ⟨p, q, hq⟩ | hset | hclear
    · simp [hpost p] at hq
    · simp [hpending] at hset
    · simp [hasleep, ReceiverPc.willClear] at hclear
  refine Nat.le_antisymm h.control.ring.tail_le (Nat.le_of_not_lt fun hlt => ?_)
  rcases h.chain.announced hlt with ⟨p, hp⟩ | hp | hdrain
  · simp [hpost p, PostPc.unannounced] at hp
  · exact hpoke hp
  · exact absurd (hasleep.symm.trans hdrain.1) nofun

/-- **Cross-core delivery, no lost poke.** What has been handed over is an initial
part of what has been pushed, and the posts that have returned `true` are each one
of the pushed requests, no two the same: so none is handed over twice. When no
post is in progress and the receiver is asleep with its pending bit clear, its
inbox is empty, all requests have been handed over, and these are those of the
posts that have returned `true`. -/
theorem cross_core_delivery {k : Nat} (hk : 1 ≤ k) {s : DeliveryState α}
    (hs : (deliverySystem α k).ReachVia (fun _ _ => True) s) :
    s.delivered <+: s.inbox.ring.pushed ∧
    (s.accepted.Nodup ∧ ∀ q ∈ s.accepted, q < s.inbox.ring.pushed.length) ∧
    ((∀ p, s.post p = .idle) → s.receiver = .asleep → s.pending = false →
      s.inbox.queue = [] ∧ s.delivered = s.inbox.ring.pushed ∧
      s.accepted.Perm (List.range s.delivered.length)) := by
  have h := delivery_invariant hk hs
  have hlen := h.control.ring.length_pushed
  refine ⟨?_, ⟨h.owned.nodup, fun q hq => hlen ▸ h.owned.accepted_lt q hq⟩,
    fun hpost hasleep hpending => ?_⟩
  · have hpopped : s.inbox.ring.popped <+: s.inbox.ring.pushed := by
      rw [h.control.ring.popped]
      exact List.take_prefix _ _
    rw [h.control.handed] at hpopped
    exact (List.prefix_append _ _).trans hpopped
  · have hempty := h.inbox_empty hpost hasleep hpending
    have hconsumer := h.control.receiving (by simp [hasleep])
    have hreleased : s.inbox.released = s.inbox.ring.pushed.length := by
      rw [RingState.released_eq_tail (by rw [hconsumer]; rfl), hempty, hlen]
    have hmoved : s.inbox.movedOut = s.inbox.ring.pushed.length := by
      rw [RingState.movedOut_eq_tail (by rw [hconsumer]; rfl), hempty, hlen]
    have hdelivered : s.delivered = s.inbox.ring.pushed := by
      have hhanded := h.control.handed
      rw [hconsumer, h.control.ring.popped, hmoved, List.take_length] at hhanded
      exact (List.append_nil _).symm.trans hhanded.symm
    refine ⟨by rw [RingState.queue, hreleased, List.drop_length], hdelivered,
      (List.perm_ext_iff_of_nodup h.owned.nodup List.nodup_range).mpr fun q => ?_⟩
    rw [hdelivered, hlen, List.mem_range]
    refine ⟨h.owned.accepted_lt q, fun hq => (h.owned.owner q hq).resolve_right ?_⟩
    rintro ⟨p, hp⟩
    simp [DeliveryState.position, hpost p, PostPc.position] at hp

/-- Two posts, the second of which relies on the poke of the first; the receiver
drains both and goes to sleep. -/
def twoPosts : List (DeliveryLabel Nat) :=
  List.flatten
    [[.post 0 10], List.replicate 5 (.poster 0 false), [.post 1 11],
      List.replicate 5 (.poster 1 false), [.poster 0 false, .poster 1 false],
      List.replicate 4 (.poster 0 false), [.receiver true], List.replicate 18 (.receiver false),
      List.replicate 5 (.receiver true)]

/-- The state after these steps. -/
def afterTwoPosts : DeliveryState Nat :=
  (deliverySystem Nat 1).after DeliveryState.initial twoPosts twoPosts.length

theorem post_afterTwoPosts (p : Nat) : afterTwoPosts.post p = .idle := by
  match p with
  | 0 => decide +kernel
  | 1 => decide +kernel
  | _ + 2 => rfl

theorem reach_afterTwoPosts :
    (deliverySystem Nat 1).ReachVia (fun _ _ => True) afterTwoPosts :=
  Lts.Run.reachVia (Lts.Run.ofLabels DeliveryState.initial twoPosts (.receiver false) rfl
    (by decide +kernel)) (fun _ _ => trivial) twoPosts.length (Nat.le_refl _)

theorem cross_core_delivery_two :
    ((∀ p, afterTwoPosts.post p = .idle) ∧ afterTwoPosts.receiver = .asleep ∧
      afterTwoPosts.pending = false) ∧
    afterTwoPosts.inbox.queue = [] ∧ afterTwoPosts.delivered = [10, 11] ∧
    afterTwoPosts.accepted.Perm (List.range 2) := by
  have hasleep : afterTwoPosts.receiver = .asleep := by decide +kernel
  have hpending : afterTwoPosts.pending = false := by decide +kernel
  have hdelivered : afterTwoPosts.delivered = [10, 11] := by decide +kernel
  obtain ⟨-, -, hdone⟩ := cross_core_delivery (Nat.le_refl 1) reach_afterTwoPosts
  obtain ⟨hempty, -, haccepted⟩ := hdone post_afterTwoPosts hasleep hpending
  rw [hdelivered] at haccepted
  exact ⟨⟨post_afterTwoPosts, hasleep, hpending⟩, hempty, hdelivered, haccepted⟩

/-- **The receiver does not sleep on a pending bit** once no post is in
progress. -/
theorem asleep_not_pending {k : Nat} (hk : 1 ≤ k) {s : DeliveryState α}
    (hs : (deliverySystem α k).ReachVia (fun _ _ => True) s) (hpost : ∀ p, s.post p = .idle)
    (hasleep : s.receiver = .asleep) : s.pending = false := by
  by_contra hset
  obtain ⟨p, hp⟩ := (delivery_invariant hk hs).wakes.signalled
    (Bool.eq_true_of_not_eq_false hset) (.inr hasleep)
  rw [hpost p] at hp
  cases hp

end Inbox

end Cortos
