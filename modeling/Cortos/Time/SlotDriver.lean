import Mathlib.Data.List.FinRange
import Cortos.Lib.Transition
import Cortos.Time.Service

/-!
# The periodic and the tickless time driver

`time_driver_periodic.cpp` and `time_driver_tickless.cpp` keep their callbacks in the
same table of sixteen slots; the tickless driver also arms the port's one-shot timer
for the earliest deadline whenever the table changes. One model with a parameter
`Kind` covers both.

- Deadlines and times are `uint64_t`, ids are `uint32_t`: naturals, with the reduction
  written out where a counter can wrap.
- `Port` is the timer of the `linux_boost` port: `arm` keeps the earliest deadline, and
  only `disarm` raises it again.
- `schedule_at` and `cancel` run with interrupts masked, so each is one step.
  `on_timer_isr` visits one slot at a time, and a callback it starts may call the driver
  any number of times before it returns.
- `start` sets `started` after it has enabled the interrupt. An interrupt between the
  two does not read `started`, so `start` is one step.

The field `ticket` of a slot and the fields `calls` and `log` of the state record which
call of `schedule_at` is which. The drivers do not read them.
-/

namespace Cortos.Time

open Lib

/-- `UINT64_MAX`, the value of `TimePoint::max()`. -/
def u64Max : Nat := 2 ^ 64 - 1

/-- Which driver is linked. -/
inductive Kind where
  | periodic
  | tickless
  deriving DecidableEq, Repr

/-! ## The port's timer -/

/-- `TimeState` of the `linux_boost` port. -/
structure Port where
  now : Nat := 0
  armed : Nat := u64Max
  irqEnabled : Bool := false
  deriving DecidableEq, Repr

namespace Port

/-- `cortos_port_time_arm`: keep the earliest. -/
def arm (p : Port) (deadline : Nat) : Port :=
  if deadline < p.armed then { p with armed := deadline } else p

/-- `cortos_port_time_disarm`. -/
def disarm (p : Port) : Port := { p with armed := u64Max }

end Port

/-! ## Slots -/

/-- `Slot`; `id = 0` is a free slot. -/
structure Slot where
  id : Nat := 0
  when : Nat := 0
  cb : Option Callback := none
  arg : Nat := 0
  /-- The call of `schedule_at` that filled the slot. -/
  ticket : Nat := 0
  deriving DecidableEq, Repr

/-- `MAX_SCHEDULED_CALLBACKS`. -/
abbrev maxScheduledCallbacks : Nat := 16

/-- `DriverState`. -/
structure DriverState where
  initialised : Bool := false
  frequencyHz : Nat := 0
  nextId : Nat := 1
  started : Bool := false
  slots : Fin maxScheduledCallbacks → Slot := fun _ => {}

/-- `id = next_id++`, again if the id was 0: the id and the new counter. -/
def takeId (nextId : Nat) : Nat × Nat :=
  let next := (nextId + 1) % 2 ^ 32
  if nextId = 0 then (next, (next + 1) % 2 ^ 32) else (nextId, next)

namespace DriverState

/-- The first slot that meets a condition. -/
def firstSlot (ds : DriverState) (p : Slot → Bool) : Option (Fin maxScheduledCallbacks) :=
  (List.finRange maxScheduledCallbacks).find? fun i => p (ds.slots i)

/-- The slot that a handle names. -/
def find (ds : DriverState) (h : Handle) : Option (Fin maxScheduledCallbacks) :=
  ds.firstSlot fun slot => slot.id = h.id

def setSlot (ds : DriverState) (i : Fin maxScheduledCallbacks) (slot : Slot) : DriverState :=
  { ds with slots := Function.update ds.slots i slot }

/-- Give slot `i` a new id and the callback of call number `ticket`. -/
def fill (ds : DriverState) (i : Fin maxScheduledCallbacks) (ticket tp : Nat) (cb : Callback)
    (arg : Nat) : DriverState :=
  { ds with nextId := (takeId ds.nextId).2 }.setSlot i
    { id := (takeId ds.nextId).1, when := tp, cb := some cb, arg := arg, ticket := ticket }

/-- The loop of `rearm_locked`: the earliest deadline in the table, or `UINT64_MAX`. -/
def earliest (ds : DriverState) : Nat :=
  (List.finRange maxScheduledCallbacks).foldl
    (fun e i => if (ds.slots i).id ≠ 0 ∧ (ds.slots i).when < e then (ds.slots i).when else e)
    u64Max

/-- `rearm_locked` of the tickless driver; the periodic one arms nothing. -/
def rearm (ds : DriverState) : Kind → Port → Port
  | .periodic, p => p
  | .tickless, p => if ds.earliest = u64Max then p.disarm else p.arm ds.earliest

/-- `schedule_at`, as call number `ticket`. -/
def scheduleAt (ds : DriverState) (kind : Kind) (port : Port) (ticket tp : Nat)
    (cb : Option Callback) (arg : Nat) : Handle × DriverState × Port :=
  match cb with
  | none => ({}, ds, port)
  | some cb =>
    match ds.firstSlot fun slot => slot.id = 0 with
    | none => ({}, ds, port)
    | some i =>
      let ds' := ds.fill i ticket tp cb arg
      ({ id := (takeId ds.nextId).1 }, ds', ds'.rearm kind port)

/-- `cancel`. -/
def cancel (ds : DriverState) (kind : Kind) (port : Port) (h : Handle) :
    Bool × DriverState × Port :=
  if h.id = 0 then (false, ds, port)
  else
    match ds.find h with
    | none => (false, ds, port)
    | some i => (true, ds.setSlot i {}, (ds.setSlot i {}).rearm kind port)

end DriverState

/-! ## Runs -/

/-- Where `on_timer_isr` is: `now` is the time that it read, `i` the slot it is at, and
`since` the number of calls of `schedule_at` before it was entered. In `callback` the
callback of slot `i` is running. -/
inductive Isr where
  | idle
  | scanning (now since i : Nat)
  | callback (now since i : Nat)
  deriving DecidableEq, Repr

/-- The driver may be called: by a thread, or by a callback. -/
def Isr.mayCall : Isr → Bool
  | .idle | .callback .. => true
  | .scanning .. => false

/-- The driver, the timer of the port, and the record of the run. -/
structure Driver where
  ds : DriverState
  port : Port
  isr : Isr := .idle
  calls : Nat := 0
  log : List Event := []

/-- What happens next. -/
inductive Label where
  | scheduleAt (tp : Nat) (cb : Option Callback) (arg : Nat)
  | cancel (h : Handle)
  /-- `on_timer_isr` is entered. -/
  | interrupt
  /-- `fire_due_isr` looks at its next slot, or returns. -/
  | scan
  /-- The running callback returns. -/
  | callbackReturns
  /-- The time advances. -/
  | advance (ticks : Nat)
  | start
  | stop
  deriving DecidableEq, Repr

/-- A call of `schedule_at`. -/
def Label.schedules : Label → Bool
  | .scheduleAt .. => true
  | _ => false

/-- Why a step does not happen: the label does not fit the state, the callback pointer
is null, an assertion of `initialise`, `start` or `finalise` fails, or the state of the
driver has been deleted. -/
inductive DriverFault where
  | disabled
  | nullCallback
  | alreadyInitialised
  | noFrequency
  | notInitialised
  | deleted
  deriving DecidableEq, Repr

namespace Driver

/-- `schedule_at`, with its record. -/
def scheduleAt (s : Driver) (kind : Kind) (tp : Nat) (cb : Option Callback) (arg : Nat) : Driver :=
  let (h, ds, port) := s.ds.scheduleAt kind s.port s.calls tp cb arg
  { s with
    ds := ds
    port := port
    calls := s.calls + 1
    log := s.log ++ [.scheduled s.calls h tp] }

/-- `cancel`, with its record. -/
def cancel (s : Driver) (kind : Kind) (h : Handle) : Driver :=
  let (r, ds, port) := s.ds.cancel kind s.port h
  { s with ds := ds, port := port, log := s.log ++ [.cancelled h r] }

/-- `fire_due_isr` at slot `i`: a due slot is freed before its callback is called. -/
def visit (s : Driver) (now since : Nat) (i : Fin maxScheduledCallbacks) :
    Except DriverFault Driver :=
  let slot := s.ds.slots i
  if slot.id ≠ 0 ∧ slot.when ≤ now then
    match slot.cb with
    | none => .error .nullCallback
    | some cb => .ok { s with
        ds := s.ds.setSlot i {}
        isr := .callback now since i
        log := s.log ++ [.invoked slot.ticket cb slot.arg now] }
  else .ok { s with isr := .scanning now since (i + 1) }

/-- `start`; only the periodic driver checks its frequency, and only the tickless one
arms the timer. -/
def start (s : Driver) (kind : Kind) : Except DriverFault Driver :=
  if s.ds.started then .ok s
  else if kind = .periodic ∧ s.ds.frequencyHz = 0 then .error .noFrequency
  else .ok { s with
    ds := { s.ds with started := true }
    port := { s.ds.rearm kind s.port with irqEnabled := true } }

/-- `stop`; only the tickless driver disarms the timer. -/
def stop (s : Driver) (kind : Kind) : Driver :=
  if s.ds.started then
    { s with
      ds := { s.ds with started := false }
      port := match kind with
        | .periodic => { s.port with irqEnabled := false }
        | .tickless => { s.port with irqEnabled := false }.disarm }
  else s

/-- One step. -/
def step (kind : Kind) (s : Driver) : Label → Except DriverFault Driver
  | .scheduleAt tp cb arg =>
    if s.isr.mayCall ∧ tp ≤ u64Max then .ok (s.scheduleAt kind tp cb arg) else .error .disabled
  | .cancel h => if s.isr.mayCall then .ok (s.cancel kind h) else .error .disabled
  | .interrupt =>
    if s.isr = .idle then
      .ok { s with
        isr := .scanning s.port.now s.calls 0
        log := s.log ++ [.entered s.port.now] }
    else .error .disabled
  | .scan =>
    match s.isr with
    | .scanning now since i =>
      if hi : i < maxScheduledCallbacks then s.visit now since ⟨i, hi⟩
      else .ok { s with
        port := s.ds.rearm kind s.port
        isr := .idle
        log := s.log ++ [.returned] }
    | _ => .error .disabled
  | .callbackReturns =>
    match s.isr with
    | .callback now since i => .ok { s with isr := .scanning now since (i + 1) }
    | _ => .error .disabled
  | .advance ticks =>
    .ok { s with port := { s.port with now := (s.port.now + ticks) % 2 ^ 64 } }
  | .start => if s.isr.mayCall then s.start kind else .error .disabled
  | .stop => if s.isr.mayCall then .ok (s.stop kind) else .error .disabled

end Driver

/-- `initialise(frequency_hz)`; only the periodic driver notes that it was called. -/
def DriverState.initialise (ds : DriverState) (kind : Kind) (frequencyHz : Nat) :
    Except DriverFault DriverState :=
  if ds.initialised then .error .alreadyInitialised
  else .ok { ds with initialised := decide (kind = .periodic), frequencyHz := frequencyHz }

/-- A driver that has just been initialised, when the port's counter reads `now`. -/
def Driver.initial (kind : Kind) (frequencyHz now : Nat) : Driver where
  ds := { initialised := decide (kind = .periodic), frequencyHz := frequencyHz }
  port := { now := now }

theorem DriverState.initialise_fresh (kind : Kind) (frequencyHz now : Nat) :
    ({} : DriverState).initialise kind frequencyHz =
      .ok (Driver.initial kind frequencyHz now).ds := rfl

/-- A driver after `initialise(frequency_hz)`, as a transition system. -/
def slotSystem (kind : Kind) (frequencyHz : Nat) : Lts Driver Label DriverFault where
  init s := ∃ now ≤ u64Max, s = Driver.initial kind frequencyHz now
  step := Driver.step kind

/-- The start of the concrete runs. -/
theorem slotSystem_init_megahertz :
    (slotSystem .tickless 1000000).init (Driver.initial .tickless 1000000 0) := ⟨0, by decide, rfl⟩

variable {kind : Kind} {s s' : Driver} {ds : DriverState} {l : Label}

theorem Driver.step_scheduleAt {tp arg : Nat} {cb : Option Callback}
    (hcall : s.isr.mayCall = true) (htp : tp ≤ u64Max) :
    s.step kind (.scheduleAt tp cb arg) = .ok (s.scheduleAt kind tp cb arg) :=
  if_pos ⟨hcall, htp⟩

theorem Driver.step_cancel {h : Handle} (hcall : s.isr.mayCall = true) :
    s.step kind (.cancel h) = .ok (s.cancel kind h) :=
  if_pos hcall

/-! ## The table -/

theorem DriverState.firstSlot_some {p : Slot → Bool} {i : Fin maxScheduledCallbacks}
    (h : ds.firstSlot p = some i) : p (ds.slots i) = true := by
  have hfound := List.find?_some h
  exact hfound

theorem DriverState.firstSlot_none {p : Slot → Bool} (h : ds.firstSlot p = none)
    (i : Fin maxScheduledCallbacks) : p (ds.slots i) = false := by
  have hnone := List.find?_eq_none.mp h i (List.mem_finRange i)
  simpa using hnone

theorem DriverState.find_some {h : Handle} {i : Fin maxScheduledCallbacks}
    (hi : ds.find h = some i) : (ds.slots i).id = h.id :=
  of_decide_eq_true (DriverState.firstSlot_some hi)

theorem DriverState.find_none {h : Handle} (hnone : ds.find h = none)
    (i : Fin maxScheduledCallbacks) : (ds.slots i).id ≠ h.id :=
  of_decide_eq_false (DriverState.firstSlot_none hnone i)

@[simp] theorem DriverState.setSlot_self {i : Fin maxScheduledCallbacks} {slot : Slot} :
    (ds.setSlot i slot).slots i = slot :=
  Function.update_self ..

@[simp] theorem DriverState.setSlot_of_ne {i j : Fin maxScheduledCallbacks} {slot : Slot}
    (h : j ≠ i) : (ds.setSlot i slot).slots j = ds.slots j :=
  Function.update_of_ne h ..

/-- The slots that are still filled when slot `i` has been freed. -/
theorem DriverState.free_filled {i j : Fin maxScheduledCallbacks}
    (hj : ((ds.setSlot i {}).slots j).id ≠ 0) :
    (ds.setSlot i {}).slots j = ds.slots j ∧ j ≠ i := by
  have hji : j ≠ i := by
    rintro rfl
    rw [setSlot_self] at hj
    exact hj rfl
  exact ⟨setSlot_of_ne hji, hji⟩

/-- The slots when slot `i` has been filled. -/
theorem DriverState.fill_slots {i : Fin maxScheduledCallbacks} {ticket tp arg : Nat}
    {cb : Callback} (j : Fin maxScheduledCallbacks) :
    (ds.fill i ticket tp cb arg).slots j = ds.slots j ∧ j ≠ i ∨
      (ds.fill i ticket tp cb arg).slots j =
        ⟨(takeId ds.nextId).1, tp, some cb, arg, ticket⟩ ∧ j = i := by
  by_cases hji : j = i
  · subst hji
    exact .inr ⟨setSlot_self, rfl⟩
  · exact .inl ⟨setSlot_of_ne hji, hji⟩

/-- The filled slots, in the order of the table. -/
def DriverState.filled (ds : DriverState) : List Slot :=
  ((List.finRange maxScheduledCallbacks).filter fun i => (ds.slots i).id ≠ 0).map ds.slots

theorem DriverState.mem_filled {slot : Slot} :
    slot ∈ ds.filled ↔ ∃ i, (ds.slots i).id ≠ 0 ∧ ds.slots i = slot := by
  simp [filled]

/-- The filled slots around slot `i`, whatever that slot holds. -/
theorem DriverState.filled_split (ds : DriverState) (i : Fin maxScheduledCallbacks) :
    ∃ pre post, ∀ slot, (ds.setSlot i slot).filled =
      pre ++ (if slot.id ≠ 0 then [slot] else []) ++ post := by
  obtain ⟨l₁, l₂, hsplit⟩ := List.append_of_mem (List.mem_finRange i)
  have hnodup := List.nodup_finRange maxScheduledCallbacks
  rw [hsplit, List.nodup_middle, List.nodup_cons] at hnodup
  -- the slots of the other indices are those of `ds`
  have hother : ∀ (l : List (Fin maxScheduledCallbacks)) (slot : Slot), i ∉ l →
      (l.filter fun j => ((ds.setSlot i slot).slots j).id ≠ 0).map (ds.setSlot i slot).slots =
        (l.filter fun j => (ds.slots j).id ≠ 0).map ds.slots := by
    intro l slot hi
    have hslots : ∀ j ∈ l, (ds.setSlot i slot).slots j = ds.slots j := fun j hj =>
      setSlot_of_ne fun heq => hi (heq ▸ hj)
    rw [List.filter_congr fun j hj => by rw [hslots j hj]]
    exact List.map_congr_left fun j hj => hslots j (List.mem_of_mem_filter hj)
  refine ⟨(l₁.filter fun j => (ds.slots j).id ≠ 0).map ds.slots,
    (l₂.filter fun j => (ds.slots j).id ≠ 0).map ds.slots, fun slot => ?_⟩
  rw [filled, hsplit, List.filter_append, List.map_append,
    hother l₁ slot fun h => hnodup.1 (List.mem_append_left _ h), List.append_assoc]
  refine congrArg _ ?_
  by_cases hid : slot.id = 0
  · rw [List.filter_cons_of_neg (by simp [hid]), if_neg (by simp [hid]), List.nil_append]
    exact hother l₂ slot fun h => hnodup.1 (List.mem_append_right _ h)
  · rw [List.filter_cons_of_pos (by simp [hid]), if_pos hid, List.map_cons, setSlot_self,
      List.singleton_append]
    exact congrArg _ (hother l₂ slot fun h => hnodup.1 (List.mem_append_right _ h))

/-- A table without a free slot. -/
theorem DriverState.filled_length (h : ∀ i, (ds.slots i).id ≠ 0) :
    ds.filled.length = maxScheduledCallbacks := by
  have hall : ((List.finRange maxScheduledCallbacks).filter fun i => (ds.slots i).id ≠ 0) =
      List.finRange maxScheduledCallbacks :=
    List.filter_eq_self.mpr fun i _ => decide_eq_true (h i)
  rw [filled, hall, List.length_map, List.length_finRange]

theorem DriverState.setSlot_eq_self (ds : DriverState) (i : Fin maxScheduledCallbacks) :
    ds.setSlot i (ds.slots i) = ds := by
  rw [setSlot, Function.update_eq_self]

/-- Filling a free slot adds it to the filled ones. -/
theorem DriverState.filled_setSlot {i : Fin maxScheduledCallbacks} {slot : Slot}
    (hfree : (ds.slots i).id = 0) (hid : slot.id ≠ 0) :
    (ds.setSlot i slot).filled.Perm (slot :: ds.filled) := by
  obtain ⟨pre, post, hsplit⟩ := ds.filled_split i
  have hold := hsplit (ds.slots i)
  rw [setSlot_eq_self, if_neg (by simp [hfree]), List.append_nil] at hold
  rw [hsplit slot, if_pos hid, hold, List.append_assoc]
  exact List.perm_middle

/-- Freeing a filled slot removes it from the filled ones. -/
theorem DriverState.filled_free {i : Fin maxScheduledCallbacks} (hid : (ds.slots i).id ≠ 0) :
    ds.filled.Perm (ds.slots i :: (ds.setSlot i {}).filled) := by
  obtain ⟨pre, post, hsplit⟩ := ds.filled_split i
  have hold := hsplit (ds.slots i)
  rw [setSlot_eq_self, if_pos hid, List.append_assoc] at hold
  rw [hsplit {}, hold, if_neg (by simp), List.append_nil]
  exact List.perm_middle

theorem takeId_ne_zero (nextId : Nat) : (takeId nextId).1 ≠ 0 := by
  unfold takeId
  by_cases h : nextId = 0 <;> simp [h]

/-- The slots that hold a callback are the filled ones. -/
def DriverState.Paired (ds : DriverState) : Prop :=
  ∀ i, (ds.slots i).cb = none ↔ (ds.slots i).id = 0

theorem DriverState.Paired.setSlot (h : ds.Paired) {slot : Slot} (hslot : slot.cb = none ↔ slot.id = 0)
    (i : Fin maxScheduledCallbacks) : (ds.setSlot i slot).Paired := by
  intro j
  by_cases hji : j = i
  · rw [hji, setSlot_self]
    exact hslot
  · rw [setSlot_of_ne hji]
    exact h j

theorem DriverState.Paired.free (h : ds.Paired) (i : Fin maxScheduledCallbacks) : (ds.setSlot i {}).Paired :=
  h.setSlot (iff_of_true rfl rfl) i

theorem DriverState.Paired.fill (h : ds.Paired) (i : Fin maxScheduledCallbacks) (ticket tp : Nat)
    (cb : Callback) (arg : Nat) : (ds.fill i ticket tp cb arg).Paired := by
  have hnext : ({ ds with nextId := (takeId ds.nextId).2 } : DriverState).Paired := h
  exact hnext.setSlot (iff_of_false (Option.some_ne_none cb) (takeId_ne_zero _)) i

/-! ## What a step can do -/

/-- The moves of a driver. -/
inductive Move (kind : Kind) (s : Driver) : Label → Driver → Prop where
  | refuse {tp arg : Nat} {cb : Option Callback} (hcall : s.isr.mayCall = true)
      (hwhy : cb = none ∨ ∀ i, (s.ds.slots i).id ≠ 0) :
      Move kind s (.scheduleAt tp cb arg)
        { s with calls := s.calls + 1, log := s.log ++ [.scheduled s.calls {} tp] }
  | schedule {i : Fin maxScheduledCallbacks} {tp arg : Nat} {cb : Callback}
      (hcall : s.isr.mayCall = true) (htp : tp ≤ u64Max) (hfree : (s.ds.slots i).id = 0) :
      Move kind s (.scheduleAt tp (some cb) arg)
        { s with
          ds := s.ds.fill i s.calls tp cb arg
          port := (s.ds.fill i s.calls tp cb arg).rearm kind s.port
          calls := s.calls + 1
          log := s.log ++ [.scheduled s.calls ⟨(takeId s.ds.nextId).1⟩ tp] }
  | cancel {i : Fin maxScheduledCallbacks} {h : Handle} (hcall : s.isr.mayCall = true)
      (hid : h.id ≠ 0) (hi : s.ds.find h = some i) :
      Move kind s (.cancel h)
        { s with
          ds := s.ds.setSlot i {}
          port := (s.ds.setSlot i {}).rearm kind s.port
          log := s.log ++ [.cancelled h true] }
  | cancelNone {h : Handle} (hcall : s.isr.mayCall = true)
      (hnone : h.id = 0 ∨ ∀ i, (s.ds.slots i).id ≠ h.id) :
      Move kind s (.cancel h) { s with log := s.log ++ [.cancelled h false] }
  | enter (hidle : s.isr = .idle) :
      Move kind s .interrupt
        { s with
          isr := .scanning s.port.now s.calls 0
          log := s.log ++ [.entered s.port.now] }
  | skip {now since : Nat} {i : Fin maxScheduledCallbacks}
      (hisr : s.isr = .scanning now since i)
      (hnot : (s.ds.slots i).id ≠ 0 → now < (s.ds.slots i).when) :
      Move kind s .scan { s with isr := .scanning now since (i + 1) }
  | fire {now since : Nat} {i : Fin maxScheduledCallbacks} {cb : Callback}
      (hisr : s.isr = .scanning now since i) (hid : (s.ds.slots i).id ≠ 0)
      (hdue : (s.ds.slots i).when ≤ now) (hcb : (s.ds.slots i).cb = some cb) :
      Move kind s .scan
        { s with
          ds := s.ds.setSlot i {}
          isr := .callback now since i
          log := s.log ++ [.invoked (s.ds.slots i).ticket cb (s.ds.slots i).arg now] }
  | leave {now since i : Nat} (hisr : s.isr = .scanning now since i)
      (hi : maxScheduledCallbacks ≤ i) :
      Move kind s .scan
        { s with
          port := s.ds.rearm kind s.port
          isr := .idle
          log := s.log ++ [.returned] }
  | callbackReturns {now since i : Nat} (hisr : s.isr = .callback now since i) :
      Move kind s .callbackReturns { s with isr := .scanning now since (i + 1) }
  | advance {ticks : Nat} :
      Move kind s (.advance ticks)
        { s with port := { s.port with now := (s.port.now + ticks) % 2 ^ 64 } }
  | start (hcall : s.isr.mayCall = true) (hstopped : s.ds.started = false) :
      Move kind s .start
        { s with
          ds := { s.ds with started := true }
          port := { s.ds.rearm kind s.port with irqEnabled := true } }
  | stop (hcall : s.isr.mayCall = true) (hstarted : s.ds.started = true) :
      Move kind s .stop (s.stop kind)
  | stay {l : Label} (hl : l = .start ∨ l = .stop) : Move kind s l s

/-- A step is one of the moves. -/
theorem Driver.step_move (h : s.step kind l = .ok s') : Move kind s l s' := by
  cases l with
  | scheduleAt tp cb arg =>
    simp only [Driver.step] at h
    split at h
    case isFalse => cases h
    case isTrue hcall =>
      cases h
      cases cb with
      | none => exact .refuse hcall.1 (.inl rfl)
      | some cb =>
        cases hfree : s.ds.firstSlot fun slot => slot.id = 0 with
        | none =>
          simp only [Driver.scheduleAt, DriverState.scheduleAt, hfree]
          exact .refuse hcall.1
            (.inr fun i => of_decide_eq_false (DriverState.firstSlot_none hfree i))
        | some i =>
          simp only [Driver.scheduleAt, DriverState.scheduleAt, hfree]
          exact .schedule hcall.1 hcall.2 (of_decide_eq_true (DriverState.firstSlot_some hfree))
  | cancel h' =>
    simp only [Driver.step] at h
    split at h
    case isFalse => cases h
    case isTrue hcall =>
      cases h
      by_cases hid : h'.id = 0
      · simp only [Driver.cancel, DriverState.cancel, hid, if_true]
        exact .cancelNone hcall (.inl hid)
      · cases hfind : s.ds.find h' with
        | none =>
          simp only [Driver.cancel, DriverState.cancel, hid, if_false, hfind]
          exact .cancelNone hcall (.inr (DriverState.find_none hfind))
        | some i =>
          simp only [Driver.cancel, DriverState.cancel, hid, if_false, hfind]
          exact .cancel hcall hid hfind
  | interrupt =>
    simp only [Driver.step] at h
    split at h
    case isFalse => cases h
    case isTrue hidle =>
      cases h
      exact .enter hidle
  | scan =>
    simp only [Driver.step] at h
    split at h
    case h_2 => cases h
    case h_1 now since i hisr =>
      split at h
      case isFalse hi =>
        cases h
        exact .leave hisr (Nat.le_of_not_lt hi)
      case isTrue hi =>
        simp only [Driver.visit] at h
        split at h
        case isTrue hdue =>
          split at h
          case h_1 => cases h
          case h_2 cb hcb =>
            cases h
            exact .fire (i := ⟨i, hi⟩) hisr hdue.1 hdue.2 hcb
        case isFalse hnot =>
          cases h
          refine .skip (i := ⟨i, hi⟩) hisr fun hid => ?_
          exact Nat.lt_of_not_le fun hdue => hnot ⟨hid, hdue⟩
  | callbackReturns =>
    simp only [Driver.step] at h
    split at h
    case h_2 => cases h
    case h_1 now since i hisr =>
      cases h
      exact .callbackReturns hisr
  | advance ticks =>
    cases h
    exact .advance
  | start =>
    simp only [Driver.step, Driver.start] at h
    split at h
    case isFalse => cases h
    case isTrue hcall =>
      split at h
      case isTrue =>
        cases h
        exact .stay (.inl rfl)
      case isFalse hstopped =>
        split at h
        case isTrue => cases h
        case isFalse =>
          cases h
          exact .start hcall (Bool.eq_false_iff.mpr hstopped)
  | stop =>
    simp only [Driver.step] at h
    split at h
    case isFalse => cases h
    case isTrue hcall =>
      cases h
      by_cases hstarted : s.ds.started = true
      · exact .stop hcall hstarted
      · have hstay : s.stop kind = s := if_neg hstarted
        rw [hstay]
        exact .stay (.inr rfl)

/-! ## The running interrupt -/

namespace Isr

/-- The time that the running `on_timer_isr` has read. -/
def now : Isr → Nat
  | .idle => 0
  | .scanning now _ _ | .callback now _ _ => now

/-- The number of calls of `schedule_at` before it was entered. -/
def since : Isr → Nat
  | .idle => 0
  | .scanning _ since _ | .callback _ since _ => since

/-- The number of slots that it has passed. -/
def passed : Isr → Nat
  | .idle => 0
  | .scanning _ _ i => i
  | .callback _ _ i => i + 1

end Isr

/-- An `on_timer_isr` returns when it has passed all slots. -/
theorem Move.isr_returns (hmove : Move kind s l s') (hbefore : s.isr ≠ .idle)
    (hafter : s'.isr = .idle) : maxScheduledCallbacks ≤ s.isr.passed := by
  cases hmove with
  | leave hisr hi => rwa [hisr]
  | enter | skip | fire | callbackReturns => cases hafter
  | stop hcall hstarted =>
    refine absurd ?_ hbefore
    simpa [Driver.stop, hstarted] using hafter
  | _ => exact absurd hafter hbefore

/-- The record only grows. -/
theorem Move.log_grows (hmove : Move kind s l s') {e : Event} (he : e ∈ s.log) : e ∈ s'.log := by
  cases hmove with
  | skip | callbackReturns | advance | start | stay => exact he
  | stop hcall hstarted => simpa [Driver.stop, hstarted] using he
  | _ => exact List.mem_append_left _ he

/-- A call of `schedule_at` is recorded under its ticket. -/
theorem Move.records_schedule {tp arg : Nat} {cb : Option Callback}
    (hmove : Move kind s (.scheduleAt tp cb arg) s') :
    ∃ h, .scheduled s.calls h tp ∈ s'.log := by
  cases hmove with
  | refuse | schedule => exact ⟨_, List.mem_append_right _ (List.mem_singleton_self _)⟩
  | stay hl => rcases hl with hl | hl <;> cases hl

/-- Only `initialise` sets the frequency. -/
theorem Move.frequencyHz_eq (hmove : Move kind s l s') :
    s'.ds.frequencyHz = s.ds.frequencyHz := by
  cases hmove with
  | stop hcall hstarted => simp [Driver.stop, hstarted]
  | _ => rfl

section Runs

variable {frequencyHz n : Nat} (r : (slotSystem kind frequencyHz).Run n)

theorem slotRun_move {i : Nat} (hi : i < n) :
    Move kind (r.state i) (r.label i) (r.state (i + 1)) :=
  Driver.step_move (r.next i hi)

theorem slotRun_frequencyHz {i : Nat} (hi : i ≤ n) :
    (r.state i).ds.frequencyHz = frequencyHz := by
  induction i with
  | zero =>
    obtain ⟨now, -, hinit⟩ := r.start
    rw [hinit]
    rfl
  | succ i ih => exact (slotRun_move r hi).frequencyHz_eq.trans (ih (Nat.le_of_succ_le hi))

theorem slotRun_log_grows {i j : Nat} (hij : i ≤ j) (hj : j ≤ n) {e : Event}
    (he : e ∈ (r.state i).log) : e ∈ (r.state j).log := by
  induction j, hij using Nat.le_induction with
  | base => exact he
  | succ j _ ih => exact (slotRun_move r hj).log_grows (ih (Nat.le_of_succ_le hj))

end Runs

end Cortos.Time
