import Cortos.Time.SlotDriver

/-!
# The simulation time driver

`time_driver_simulation.cpp` keeps its callbacks in a growing vector behind a mutex.
`fire_due_callbacks` copies the due events to a list of its own, removes them from the
vector, releases the mutex and then runs the copies one after the other.

- The mutex makes `schedule_at`, `cancel` and the copying single steps. They may happen
  at any time: from a callback, or from another thread while an `on_timer_isr` is
  running.
- The mode is `Virtual`: `virtual_now` advances by `advance_by`, which then calls
  `on_timer_isr`; here these are two steps. `RealTime` mode differs in where the time
  comes from and in who calls `on_timer_isr`.

`SimRefines` ties the driver to the timer service: the pending timers are the events of
the vector that are not cancelled, and the copies that are still to be run. Every step
is a step of the service or none (`SimRefines.step`), unless a cancel asks for a copy:
it does not find it, and the copy is run later.
-/

namespace Cortos.Time

open Lib

/-! ## The driver -/

/-- `sim::Event`, with the call of `schedule_at` that made it. -/
structure SimEvent where
  id : Nat
  when : Nat
  cb : Option Callback
  arg : Nat
  cancelled : Bool := false
  ticket : Nat
  deriving DecidableEq, Repr

/-- The part of `sim::DriverState` that scheduling uses. -/
structure SimState where
  tickFrequencyHz : Nat := 1000
  nextId : Nat := 1
  events : List SimEvent := []
  virtualNow : Nat := 0
  started : Bool := false

namespace SimState

/-- `schedule_at`, as call number `ticket`. -/
def scheduleAt (ds : SimState) (ticket tp : Nat) (cb : Option Callback) (arg : Nat) :
    Handle × SimState :=
  match cb with
  | none => ({}, ds)
  | some cb =>
    ({ id := (takeId ds.nextId).1 }, { ds with
      nextId := (takeId ds.nextId).2
      events := ds.events ++
        [{ id := (takeId ds.nextId).1, when := tp, cb := some cb, arg := arg, ticket := ticket }] })

/-- The loop of `cancel`: mark the first event with this id that is not cancelled. -/
def cancelFirst (id : Nat) : List SimEvent → Bool × List SimEvent
  | [] => (false, [])
  | e :: es =>
    if e.id = id ∧ e.cancelled = false then (true, { e with cancelled := true } :: es)
    else ((cancelFirst id es).1, e :: (cancelFirst id es).2)

/-- `cancel`. -/
def cancel (ds : SimState) (h : Handle) : Bool × SimState :=
  if h.id = 0 then (false, ds)
  else ((cancelFirst h.id ds.events).1, { ds with events := (cancelFirst h.id ds.events).2 })

end SimState

/-- The test of `fire_due_callbacks`. -/
def SimEvent.due (e : SimEvent) (now : Nat) : Bool :=
  e.id ≠ 0 ∧ e.cancelled = false ∧ e.when ≤ now

/-- Where `fire_due_callbacks` is: the time it was given and the copies still to run. In
`callback` the callback of an earlier copy is running. -/
inductive SimIsr where
  | idle
  | firing (now : Nat) (due : List SimEvent)
  | callback (now : Nat) (due : List SimEvent)
  deriving DecidableEq, Repr

/-- The copies that are still to be run. -/
def SimIsr.due : SimIsr → List SimEvent
  | .idle => []
  | .firing _ due | .callback _ due => due

def SimIsr.now : SimIsr → Nat
  | .idle => 0
  | .firing now _ | .callback now _ => now

/-- The driver and the record of the run. -/
structure Sim where
  ds : SimState
  isr : SimIsr := .idle
  calls : Nat := 0
  log : List Event := []

namespace Sim

/-- `schedule_at`, with its record. -/
def scheduleAt (s : Sim) (tp : Nat) (cb : Option Callback) (arg : Nat) : Sim :=
  let (h, ds) := s.ds.scheduleAt s.calls tp cb arg
  { s with ds := ds, calls := s.calls + 1, log := s.log ++ [.scheduled s.calls h tp] }

/-- `cancel`, with its record. -/
def cancel (s : Sim) (h : Handle) : Sim :=
  let (r, ds) := s.ds.cancel h
  { s with ds := ds, log := s.log ++ [.cancelled h r] }

/-- `on_timer_isr` up to the release of the mutex: the due events are copied, and they
and the cancelled ones are removed. -/
def enter (s : Sim) : Sim :=
  let now := s.ds.virtualNow
  { s with
    ds := { s.ds with events := s.ds.events.filter fun e => !(e.cancelled || e.due now) }
    isr := .firing now (s.ds.events.filter fun e => e.due now)
    log := s.log ++ [.entered now] }

/-- `fire_due_callbacks` at its next copy. -/
def fire (s : Sim) (now : Nat) : List SimEvent → Sim
  | [] => { s with isr := .idle, log := s.log ++ [.returned] }
  | e :: due =>
    match e.cb with
    | none => { s with isr := .firing now due }
    | some cb => { s with
        isr := .callback now due
        log := s.log ++ [.invoked e.ticket cb e.arg now] }

/-- One step. -/
def step (s : Sim) : Label → Except DriverFault Sim
  | .scheduleAt tp cb arg => if tp ≤ u64Max then .ok (s.scheduleAt tp cb arg) else .error .disabled
  | .cancel h => .ok (s.cancel h)
  | .interrupt => if s.isr = .idle then .ok s.enter else .error .disabled
  | .scan =>
    match s.isr with
    | .firing now due => .ok (s.fire now due)
    | _ => .error .disabled
  | .callbackReturns =>
    match s.isr with
    | .callback now due => .ok { s with isr := .firing now due }
    | _ => .error .disabled
  -- the sum may wrap, and time does not go back
  | .advance ticks => .ok { s with ds := { s.ds with
      virtualNow := max ((s.ds.virtualNow + ticks) % 2 ^ 64) s.ds.virtualNow } }
  | .start => .ok { s with ds := { s.ds with started := true } }
  | .stop => .ok s

/-- A driver that has just been initialised. -/
def initial (frequencyHz : Nat) : Sim where
  ds := { tickFrequencyHz := frequencyHz }

end Sim

/-- The simulation driver after `initialise(frequency_hz)`, as a transition system. -/
def simSystem (frequencyHz : Nat) : Lts Sim Label DriverFault where
  init s := s = Sim.initial frequencyHz
  step := Sim.step

variable {s s' : Sim} {a a' : Service} {l : Label}

theorem Sim.step_scheduleAt {tp arg : Nat} {cb : Option Callback} (htp : tp ≤ u64Max) :
    s.step (.scheduleAt tp cb arg) = .ok (s.scheduleAt tp cb arg) :=
  if_pos htp

/-! ## What a step can do -/

/-- The moves of the simulation driver. -/
inductive SimMove (s : Sim) : Label → Sim → Prop where
  | refuse {tp arg : Nat} :
      SimMove s (.scheduleAt tp none arg)
        { s with calls := s.calls + 1, log := s.log ++ [.scheduled s.calls {} tp] }
  | schedule {tp arg : Nat} {cb : Callback} :
      SimMove s (.scheduleAt tp (some cb) arg) (s.scheduleAt tp (some cb) arg)
  | cancel {h : Handle} : SimMove s (.cancel h) (s.cancel h)
  | enter (hidle : s.isr = .idle) : SimMove s .interrupt s.enter
  /-- A copy without a callback. -/
  | skip {now : Nat} {e : SimEvent} {due : List SimEvent} (hisr : s.isr = .firing now (e :: due))
      (hcb : e.cb = none) : SimMove s .scan { s with isr := .firing now due }
  | fire {now : Nat} {e : SimEvent} {due : List SimEvent} {cb : Callback}
      (hisr : s.isr = .firing now (e :: due)) (hcb : e.cb = some cb) :
      SimMove s .scan
        { s with
          isr := .callback now due
          log := s.log ++ [.invoked e.ticket cb e.arg now] }
  | leave {now : Nat} (hisr : s.isr = .firing now []) :
      SimMove s .scan { s with isr := .idle, log := s.log ++ [.returned] }
  | callbackReturns {now : Nat} {due : List SimEvent} (hisr : s.isr = .callback now due) :
      SimMove s .callbackReturns { s with isr := .firing now due }
  | advance {ticks : Nat} :
      SimMove s (.advance ticks) { s with ds := { s.ds with
        virtualNow := max ((s.ds.virtualNow + ticks) % 2 ^ 64) s.ds.virtualNow } }
  | start : SimMove s .start { s with ds := { s.ds with started := true } }
  | stop : SimMove s .stop s

/-- A step is one of the moves. -/
theorem Sim.step_move (h : s.step l = .ok s') : SimMove s l s' := by
  cases l with
  | scheduleAt tp cb arg =>
    simp only [Sim.step] at h
    split at h
    case isFalse => cases h
    case isTrue =>
      cases h
      cases cb with
      | none => exact .refuse
      | some cb => exact .schedule
  | cancel h' =>
    cases h
    exact .cancel
  | interrupt =>
    simp only [Sim.step] at h
    split at h
    case isFalse => cases h
    case isTrue hidle =>
      cases h
      exact .enter hidle
  | scan =>
    simp only [Sim.step] at h
    split at h
    case h_2 => cases h
    case h_1 now due hisr =>
      cases h
      cases due with
      | nil => exact .leave hisr
      | cons e due =>
        simp only [Sim.fire]
        cases hcb : e.cb with
        | none => exact .skip hisr hcb
        | some cb => exact .fire hisr hcb
  | callbackReturns =>
    simp only [Sim.step] at h
    split at h
    case h_2 => cases h
    case h_1 now due hisr =>
      cases h
      exact .callbackReturns hisr
  | advance ticks =>
    cases h
    exact .advance
  | start =>
    cases h
    exact .start
  | stop =>
    cases h
    exact .stop

/-- Only `initialise` sets the frequency. -/
theorem SimMove.tickFrequencyHz_eq (hmove : SimMove s l s') :
    s'.ds.tickFrequencyHz = s.ds.tickFrequencyHz := by
  cases hmove with
  | @cancel h =>
    simp only [Sim.cancel, SimState.cancel]
    split <;> rfl
  | _ => rfl

/-! ## Events -/

/-- The events of the vector that are not cancelled. -/
def active (es : List SimEvent) : List SimEvent := es.filter fun e => !e.cancelled

/-- The events that are waiting, in the vector or as copies. -/
def Sim.live (s : Sim) : List SimEvent := active s.ds.events ++ s.isr.due

theorem Sim.live_idle (hidle : s.isr = .idle) : s.live = active s.ds.events := by
  rw [Sim.live, hidle]
  exact List.append_nil _

/-- A cancel that succeeds removes one event from the active ones. -/
theorem cancelFirst_true {id : Nat} {es : List SimEvent}
    (h : (SimState.cancelFirst id es).1 = true) :
    ∃ e, e.id = id ∧ (active es).Perm (e :: active (SimState.cancelFirst id es).2) := by
  induction es with
  | nil => cases h
  | cons e es ih =>
    unfold SimState.cancelFirst at h ⊢
    split
    case isTrue he =>
      refine ⟨e, he.1, ?_⟩
      simp [active, he.2]
    case isFalse he =>
      rw [if_neg he] at h
      obtain ⟨x, hx, hperm⟩ := ih h
      refine ⟨x, hx, ?_⟩
      cases hc : e.cancelled with
      | true => simpa [active, hc] using hperm
      | false =>
        -- `e` has another id and stays in front
        have hswap := (hperm.cons e).trans (List.Perm.swap x e _)
        simpa [active, hc] using hswap

/-- A cancel that fails changes nothing, and no active event has the id. -/
theorem cancelFirst_false {id : Nat} {es : List SimEvent}
    (h : (SimState.cancelFirst id es).1 = false) :
    (SimState.cancelFirst id es).2 = es ∧ ∀ e ∈ active es, e.id ≠ id := by
  induction es with
  | nil => exact ⟨rfl, fun e he => absurd he List.not_mem_nil⟩
  | cons e es ih =>
    unfold SimState.cancelFirst at h ⊢
    split
    case isTrue he =>
      rw [if_pos he] at h
      cases h
    case isFalse he =>
      rw [if_neg he] at h
      obtain ⟨heq, hnone⟩ := ih h
      refine ⟨by rw [heq], fun x hx => ?_⟩
      obtain ⟨hmem, hactive⟩ := List.mem_filter.mp hx
      rcases List.mem_cons.mp hmem with rfl | hmem
      · intro hid
        exact he ⟨hid, by simpa using hactive⟩
      · exact hnone x (List.mem_filter.mpr ⟨hmem, hactive⟩)

/-- Copying moves the due events from the vector to the copies. -/
theorem active_enter (es : List SimEvent) (now : Nat) :
    (active es).Perm (active (es.filter fun e => !(e.cancelled || e.due now)) ++
      es.filter fun e => e.due now) := by
  induction es with
  | nil => exact .refl _
  | cons e es ih =>
    cases hc : e.cancelled with
    | true => simpa [active, hc, SimEvent.due] using ih
    | false =>
      cases hd : e.due now with
      | true =>
        have hmid := (ih.cons e).trans List.perm_middle.symm
        simpa [active, hc, hd] using hmid
      | false =>
        have hcons := ih.cons e
        simpa [active, hc, hd] using hcons

/-! ## Refinement -/

/-- The timer that an event stands for. -/
def SimEvent.timer (e : SimEvent) : Timer := ⟨⟨e.id⟩, e.when⟩

/-- The waiting events are the pending timers of the service. -/
structure SimRefines (s : Sim) (a : Service) : Prop where
  inv : a.Inv
  calls : a.calls = s.calls
  log : a.log = s.log
  pending : ∀ t x, a.pending t = some x ↔ ∃ e ∈ s.live, e.ticket = t ∧ e.timer = x
  ticket : (s.live.map SimEvent.ticket).Nodup
  id : ∀ e ∈ s.live, e.id ≠ 0 ∧ e.cb ≠ none
  due : ∀ e ∈ s.isr.due, e.when ≤ s.isr.now

namespace SimRefines

theorem initial (frequencyHz : Nat) : SimRefines (Sim.initial frequencyHz) Service.initial where
  inv := .initial
  calls := rfl
  log := rfl
  pending t x := by simp [Service.initial, Sim.live, Sim.initial, active, SimIsr.due]
  ticket := List.nodup_nil
  id e he := absurd he List.not_mem_nil
  due e he := absurd he List.not_mem_nil

/-- The same events are waiting. -/
theorem perm (h : SimRefines s a) (hlive : s.live.Perm s'.live) (ha : a'.Inv)
    (hpending : a'.pending = a.pending) (hcalls : a'.calls = s'.calls) (hlog : a'.log = s'.log)
    (hdue : ∀ e ∈ s'.isr.due, e.when ≤ s'.isr.now) : SimRefines s' a' where
  inv := ha
  calls := hcalls
  log := hlog
  pending t x := by
    rw [hpending, h.pending]
    simp only [hlive.mem_iff]
  ticket := (hlive.map _).nodup_iff.mp h.ticket
  id e he := h.id e (hlive.mem_iff.mpr he)
  due := hdue

/-- One more event is waiting, for the next call. -/
theorem add (h : SimRefines s a) {e : SimEvent} (hlive : s'.live.Perm (e :: s.live))
    (hticket : e.ticket = s.calls) (hid : e.id ≠ 0) (hcb : e.cb ≠ none)
    (hfresh : ∀ x ∈ s.live, x.id ≠ e.id) (hcalls : s'.calls = s.calls + 1)
    (hlog : s'.log = s.log ++ [.scheduled s.calls ⟨e.id⟩ e.when]) (hisr : s'.isr = s.isr) :
    ∃ a', SimRefines s' a' := by
  have hunused : ∀ t x, a.pending t = some x → x.handle ≠ ⟨e.id⟩ := by
    intro t x hx heq
    obtain ⟨y, hy, -, rfl⟩ := (h.pending t x).mp hx
    exact hfresh y hy (congrArg Handle.id heq)
  have hstep : Service.Step a ⟨a.calls + 1, Function.update a.pending a.calls (some e.timer),
      a.log ++ [.scheduled a.calls ⟨e.id⟩ e.when]⟩ := .schedule hid hunused
  -- tickets of waiting events were given earlier
  have hearlier : ∀ x ∈ s.live, x.ticket ≠ s.calls := by
    intro x hx heq
    have hnone := (h.inv.unborn (t := s.calls) (Nat.le_of_eq h.calls)).1
    rw [(h.pending s.calls x.timer).mpr ⟨x, hx, heq, rfl⟩] at hnone
    cases hnone
  refine ⟨_, h.inv.step hstep, ?_, ?_, ?_, ?_, ?_, ?_⟩
  · rw [h.calls, hcalls]
  · rw [hlog, h.log, h.calls]
  · refine Service.pending_add h.pending (fun x => ?_) fun t x => ?_
    · rintro ⟨y, hy, hyt, -⟩
      exact hearlier y hy (hyt.trans h.calls)
    · simp only [hlive.mem_iff, List.mem_cons, exists_eq_or_imp, hticket, h.calls]
      rw [eq_comm, eq_comm (b := x)]
  · rw [(hlive.map SimEvent.ticket).nodup_iff, List.map_cons, List.nodup_cons]
    refine ⟨?_, h.ticket⟩
    rw [hticket]
    intro hmem
    obtain ⟨x, hx, heq⟩ := List.mem_map.mp hmem
    exact hearlier x hx heq
  · intro x hx
    rcases List.mem_cons.mp (hlive.mem_iff.mp hx) with rfl | hx
    · exact ⟨hid, hcb⟩
    · exact h.id x hx
  · rw [hisr]
    exact h.due

/-- One event is no longer waiting. -/
theorem remove (h : SimRefines s a) {e : SimEvent} (hlive : s.live.Perm (e :: s'.live))
    {ev : Event} (hstep : a.pending e.ticket = some e.timer → Service.Step a
      ⟨a.calls, Function.update a.pending e.ticket none, a.log ++ [ev]⟩)
    (hcalls : s'.calls = s.calls) (hlog : s'.log = s.log ++ [ev])
    (hdue : ∀ e ∈ s'.isr.due, e.when ≤ s'.isr.now) : ∃ a', SimRefines s' a' := by
  have hmem : e ∈ s.live := hlive.mem_iff.mpr (List.mem_cons_self ..)
  have hnodup := (hlive.map SimEvent.ticket).nodup_iff.mp h.ticket
  rw [List.map_cons, List.nodup_cons] at hnodup
  refine ⟨_, h.inv.step (hstep ((h.pending _ _).mpr ⟨e, hmem, rfl, rfl⟩)), ?_, ?_, ?_,
    hnodup.2, ?_, hdue⟩
  · rw [hcalls]
    exact h.calls
  · rw [hlog, h.log]
  · refine Service.pending_drop h.pending fun t x => ?_
    simp only [hlive.mem_iff, List.mem_cons, exists_eq_or_imp]
    constructor
    · rintro ⟨y, hy, rfl, rfl⟩
      refine ⟨fun heq => hnodup.1 (List.mem_map.mpr ⟨y, hy, heq⟩), .inr ⟨y, hy, rfl, rfl⟩⟩
    · rintro ⟨ht, ⟨heq, -⟩ | hy⟩
      · exact absurd heq.symm ht
      · exact hy
  · exact fun x hx => h.id x (hlive.mem_iff.mpr (List.mem_cons_of_mem _ hx))

end SimRefines

/-- What a step has to find: `schedule_at` an id that no waiting event has, and `cancel`
a handle that is not one of a copy that is still to be run. -/
def SimCondition (s : Sim) : Label → Prop
  | .scheduleAt .. => ∀ e ∈ s.live, e.id ≠ (takeId s.ds.nextId).1
  | .cancel h => ∀ e ∈ s.isr.due, e.id ≠ h.id
  | _ => True

instance : (l : Label) → Decidable (SimCondition s l)
  | .scheduleAt .. | .cancel _ => inferInstanceAs (Decidable (∀ _ ∈ _, _))
  | .interrupt | .scan | .callbackReturns | .advance _ | .start | .stop => .isTrue trivial

/-- `cancel` of a handle that is not one of a copy. -/
theorem SimRefines.cancel (h : SimRefines s a) {h' : Handle}
    (hcond : ∀ e ∈ s.isr.due, e.id ≠ h'.id) : ∃ a', SimRefines (s.cancel h') a' := by
  -- a cancel that finds nothing
  have hnone : (∀ e ∈ s.live, e.id ≠ h'.id) → s.ds.cancel h' = (false, s.ds) →
      ∃ a', SimRefines (s.cancel h') a' := by
    intro hfree heq
    have hstep : Service.Step a ⟨a.calls, a.pending, a.log ++ [.cancelled h' false]⟩ := by
      refine .cancelNone fun t x hx hhandle => ?_
      obtain ⟨e, he, -, rfl⟩ := (h.pending t x).mp hx
      exact hfree e he (congrArg Handle.id hhandle)
    simp only [Sim.cancel, heq]
    exact ⟨_, h.perm (.refl _) (h.inv.step hstep) rfl h.calls (by rw [h.log]) h.due⟩
  by_cases hid : h'.id = 0
  · refine hnone (fun e he heq => (h.id e he).1 (heq.trans hid)) ?_
    exact if_pos hid
  · cases hfound : (SimState.cancelFirst h'.id s.ds.events).1 with
    | false =>
      obtain ⟨heq, hactive⟩ := cancelFirst_false hfound
      refine hnone (fun e he => ?_) ?_
      · rcases List.mem_append.mp he with he | he
        · exact hactive e he
        · exact hcond e he
      · simp only [SimState.cancel, if_neg hid, hfound, heq]
    | true =>
      obtain ⟨e, hid', hperm⟩ := cancelFirst_true hfound
      have hstep : a.pending e.ticket = some e.timer → Service.Step a
          ⟨a.calls, Function.update a.pending e.ticket none, a.log ++ [.cancelled h' true]⟩ := by
        intro hpending
        have heq : e.timer.handle = h' := by
          show (⟨e.id⟩ : Handle) = h'
          rw [hid']
        exact heq ▸ .cancel hpending
      simp only [Sim.cancel, SimState.cancel, if_neg hid, hfound]
      exact h.remove (hperm.append_right s.isr.due) hstep rfl rfl h.due

/-- `on_timer_isr` copies the due events. -/
theorem SimRefines.enter (h : SimRefines s a) (hidle : s.isr = .idle) :
    ∃ a', SimRefines s.enter a' := by
  have hstep : Service.Step a ⟨a.calls, a.pending, a.log ++ [.entered s.ds.virtualNow]⟩ := .isr rfl
  refine ⟨_, h.perm ?_ (h.inv.step hstep) rfl h.calls ?_ ?_⟩
  · rw [Sim.live_idle hidle]
    exact active_enter s.ds.events s.ds.virtualNow
  · rw [h.log]
    rfl
  · intro e he
    have hdue := (List.mem_filter.mp he).2
    exact (of_decide_eq_true hdue).2.2

/-- The callback of the next copy is started. -/
theorem SimRefines.fire (h : SimRefines s a) {now : Nat} {e : SimEvent} {due : List SimEvent}
    {cb : Callback} (hisr : s.isr = .firing now (e :: due)) : ∃ a', SimRefines
      { s with
        isr := .callback now due
        log := s.log ++ [.invoked e.ticket cb e.arg now] } a' := by
  have hdue := h.due
  rw [hisr] at hdue
  have hstep : a.pending e.ticket = some e.timer → Service.Step a
      ⟨a.calls, Function.update a.pending e.ticket none,
        a.log ++ [.invoked e.ticket cb e.arg now]⟩ :=
    fun hpending => .invoke hpending (hdue e (List.mem_cons_self ..))
  refine h.remove ?_ hstep rfl rfl fun x hx => hdue x (List.mem_cons_of_mem _ hx)
  rw [Sim.live, hisr]
  exact List.perm_middle

/-- A step of the simulation driver that meets the condition is a step of the service, or
none. -/
theorem SimRefines.step (h : SimRefines s a) (hcond : SimCondition s l)
    (hstep : s.step l = .ok s') : ∃ a', SimRefines s' a' := by
  cases Sim.step_move hstep with
  | @refuse tp arg =>
    have hrefuse : Service.Step a
      ⟨a.calls + 1, a.pending, a.log ++ [.scheduled a.calls {} tp]⟩ := .refuse
    exact ⟨_, h.perm (.refl _) (h.inv.step hrefuse) rfl (by rw [h.calls])
      (by rw [h.calls, h.log]) h.due⟩
  | @schedule tp arg cb =>
    refine h.add (e := ⟨(takeId s.ds.nextId).1, tp, some cb, arg, false, s.calls⟩) ?_ rfl
      (takeId_ne_zero _) (Option.some_ne_none cb) hcond rfl rfl rfl
    -- the event is appended to the vector, before the copies
    simp only [Sim.live, Sim.scheduleAt, SimState.scheduleAt, active, List.filter_append]
    exact (List.append_assoc ..).symm ▸ List.perm_middle
  | cancel => exact h.cancel hcond
  | enter hidle => exact h.enter hidle
  | @skip now e due hisr hcb =>
    have he : e ∈ s.live := by
      rw [Sim.live, hisr]
      exact List.mem_append_right _ (List.mem_cons_self ..)
    exact absurd hcb (h.id e he).2
  | fire hisr hcb => exact h.fire hisr
  | leave hisr =>
    have hreturn : Service.Step a ⟨a.calls, a.pending, a.log ++ [.returned]⟩ := .isr rfl
    refine ⟨_, h.perm ?_ (h.inv.step hreturn) rfl h.calls (by rw [h.log]) ?_⟩
    · rw [Sim.live, hisr]
      exact .refl _
    · exact fun e he => absurd he List.not_mem_nil
  | callbackReturns hisr =>
    have hdue := h.due
    refine ⟨a, h.perm ?_ h.inv rfl h.calls h.log ?_⟩
    · rw [Sim.live, hisr]
      exact .refl _
    · rwa [hisr] at hdue
  | advance | start => exact ⟨a, h.perm (.refl _) h.inv rfl h.calls h.log h.due⟩
  | stop => exact ⟨a, h⟩

end Cortos.Time
