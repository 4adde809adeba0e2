import Mathlib.Data.Multiset.Filter
import Cortos.Lib.Lists
import Cortos.Time.Simulation

/-!
# The simulation driver stands for the periodic one

Tests run on the simulation driver, targets on the periodic one. The first keeps a
vector that grows, marks what is cancelled and copies what is due; the second keeps
sixteen slots and reuses them at once. This module compares what a client sees of
them, when callbacks do not call the driver and at most sixteen are pending.

- `Interface`: what a client needs of a driver. `Interface.run` performs a list of calls
  and interrupts and collects the answers: a handle, the result of a cancel, or the
  callbacks that an interrupt has started, without their order.
- `Same`: the filled slots and the events that are not cancelled are the same
  requests, in some order, and both drivers give the same id next.
- `Same.call`: a call answers the same in both and keeps the relation; `same_answers` is
  the result about runs.
-/

namespace Cortos.Time

open Lib

/-! ## A client -/

/-- What a client does: a call, or waiting for an interrupt at time `now`. -/
inductive ClientOp where
  | scheduleAt (tp : Nat) (cb : Callback) (arg : Nat)
  | cancel (h : Handle)
  | interrupt (now : Nat)
  deriving DecidableEq, Repr

namespace ClientOp

def schedules : ClientOp → Bool
  | .scheduleAt .. => true
  | _ => false

/-- The time of an interrupt. -/
def time : ClientOp → Option Nat
  | .interrupt now => some now
  | _ => none

/-- Deadlines and times are of type `uint64_t`. -/
def InRange : ClientOp → Prop
  | .scheduleAt tp _ _ => tp ≤ u64Max
  | .cancel _ => True
  | .interrupt now => now ≤ u64Max

instance : DecidablePred InRange
  | .scheduleAt tp _ _ => inferInstanceAs (Decidable (tp ≤ u64Max))
  | .cancel _ => .isTrue trivial
  | .interrupt now => inferInstanceAs (Decidable (now ≤ u64Max))

end ClientOp

/-- What a client sees. -/
inductive Observation where
  | handle (h : Handle)
  | result (r : Bool)
  | fired (cb : Callback) (arg : Nat)
  deriving DecidableEq, Repr

def Event.observe : Event → Option Observation
  | .scheduled _ h _ => some (.handle h)
  | .cancelled _ r => some (.result r)
  | .invoked _ cb arg _ => some (.fired cb arg)
  | .entered _ | .returned => none

/-- What a client needs of a driver: its steps, its clock and its record, and what the
running `on_timer_isr` does next. -/
structure Interface (σ : Type) where
  step : σ → Label → Except DriverFault σ
  now : σ → Nat
  log : σ → List Event
  handler : σ → Option Label

/-- Enough steps for an `on_timer_isr` that starts a callback for every slot. -/
def handlerSteps : Nat := 2 * maxScheduledCallbacks + 2

namespace Interface

variable {σ : Type} (D : Interface σ)

/-- Run `on_timer_isr` until it returns. -/
def serve : Nat → σ → Except DriverFault σ
  | 0, _ => .error .disabled
  | n + 1, s =>
    match D.handler s with
    | none => .ok s
    | some l => (D.step s l).bind (serve n)

def perform (s : σ) : ClientOp → Except DriverFault σ
  | .scheduleAt tp cb arg => D.step s (.scheduleAt tp (some cb) arg)
  | .cancel h => D.step s (.cancel h)
  | .interrupt now =>
    ((D.step s (.advance (now - D.now s))).bind (D.step · .interrupt)).bind (D.serve handlerSteps)

/-- An operation with what the client sees of it. -/
def call (s : σ) (op : ClientOp) : Except DriverFault (Multiset Observation × σ) :=
  (D.perform s op).map fun s' =>
    (↑(((D.log s').drop (D.log s).length).filterMap Event.observe), s')

def run : σ → List ClientOp → Except DriverFault (List (Multiset Observation) × σ)
  | s, [] => .ok ([], s)
  | s, op :: ops =>
    (D.call s op).bind fun (answer, s') =>
      (run s' ops).map fun (answers, s'') => (answer :: answers, s'')

/-- `P` holds before and after every operation. -/
def Throughout (P : σ → Prop) : σ → List ClientOp → Prop
  | s, [] => P s
  | s, op :: ops => P s ∧ ∀ answer s', D.call s op = .ok (answer, s') → Throughout P s' ops

variable {D}

theorem Throughout.head {P : σ → Prop} {s : σ} {ops : List ClientOp}
    (h : D.Throughout P s ops) : P s := by
  cases ops with
  | nil => exact h
  | cons => exact h.1

theorem Throughout.cons {P : σ → Prop} {s s' : σ} {op : ClientOp} {ops : List ClientOp}
    {answer : Multiset Observation} (hs : P s) (hcall : D.call s op = .ok (answer, s'))
    (h : D.Throughout P s' ops) : D.Throughout P s (op :: ops) := by
  refine ⟨hs, fun answer' s'' hcall' => ?_⟩
  rw [hcall] at hcall'
  cases hcall'
  exact h

theorem serve_idle {s : σ} {n : Nat} (hidle : D.handler s = none) :
    D.serve (n + 1) s = .ok s := by
  rw [serve, hidle]

theorem serve_step {s s' : σ} {l : Label} {n : Nat} (hnext : D.handler s = some l)
    (hstep : D.step s l = .ok s') : D.serve (n + 1) s = D.serve n s' := by
  simp only [serve, hnext, hstep]
  rfl

/-- The answer is in what the operation has added to the record. -/
theorem call_ok {s s' : σ} {op : ClientOp} {es : List Event} (hok : D.perform s op = .ok s')
    (hlog : D.log s' = D.log s ++ es) : D.call s op = .ok (↑(es.filterMap Event.observe), s') := by
  rw [call, hok, Except.map, hlog, List.drop_left]

theorem run_cons {s s' s'' : σ} {op : ClientOp} {ops : List ClientOp}
    {answer : Multiset Observation} {answers : List (Multiset Observation)}
    (hcall : D.call s op = .ok (answer, s')) (hrun : D.run s' ops = .ok (answers, s'')) :
    D.run s (op :: ops) = .ok (answer :: answers, s'') := by
  simp only [run, hcall, Except.bind, hrun]
  rfl

end Interface

/-- The periodic driver. -/
def periodicInterface : Interface Driver where
  step := Driver.step .periodic
  now d := d.port.now
  log d := d.log
  handler d :=
    match d.isr with
    | .idle => none
    | .scanning .. => some .scan
    | .callback .. => some .callbackReturns

/-- The simulation driver in `Virtual` mode. -/
def simInterface : Interface Sim where
  step := Sim.step
  now s := s.ds.virtualNow
  log s := s.log
  handler s :=
    match s.isr with
    | .idle => none
    | .firing .. => some .scan
    | .callback .. => some .callbackReturns

theorem periodicInterface_scanning {d : Driver} {now since i : Nat}
    (hisr : d.isr = .scanning now since i) : periodicInterface.handler d = some .scan := by
  simp only [periodicInterface, hisr]

theorem simInterface_firing {s : Sim} {now : Nat} {due : List SimEvent}
    (hisr : s.isr = .firing now due) : simInterface.handler s = some .scan := by
  simp only [simInterface, hisr]

/-! ## Requests -/

/-- What a slot and an event have in common. -/
structure Request where
  id : Nat
  when : Nat
  cb : Option Callback
  arg : Nat
  deriving DecidableEq, Repr

def Slot.request (slot : Slot) : Request := ⟨slot.id, slot.when, slot.cb, slot.arg⟩

def SimEvent.request (e : SimEvent) : Request := ⟨e.id, e.when, e.cb, e.arg⟩

/-- What a client sees when the callback is started. -/
def Request.observe (q : Request) : Option Observation := q.cb.map fun cb => .fired cb q.arg

theorem request_observe {q : Request} {cb : Callback} (hcb : q.cb = some cb) :
    q.observe = some (.fired cb q.arg) := by
  rw [Request.observe, hcb]
  rfl

/-! ## `fire_due_isr` as a whole -/

/-- What an `on_timer_isr` of time `now` has done: it has started the due slots and left
the others. -/
structure Served (now : Nat) (d d' : Driver) (es : List Event) (fired : List Slot) : Prop where
  idle : d'.isr = .idle
  next : d'.ds.nextId = d.ds.nextId
  port : d'.port = d.port
  paired : d'.ds.Paired
  log : d'.log = d.log ++ es
  observed : es.filterMap Event.observe = (fired.map Slot.request).filterMap Request.observe
  filled : d.ds.filled.Perm (fired ++ d'.ds.filled)
  due : ∀ slot ∈ fired, slot.when ≤ now
  rest : ∀ slot ∈ d'.ds.filled, now < slot.when

/-- The loop from slot `i` on, when the slots before it are not due. -/
theorem serve_scanning (now since m : Nat) : ∀ {d : Driver} {i n : Nat},
    i + m = maxScheduledCallbacks → 2 * m + 2 ≤ n → d.isr = .scanning now since i →
    d.ds.Paired → (∀ j : Fin maxScheduledCallbacks, j.val < i → (d.ds.slots j).id ≠ 0 →
      now < (d.ds.slots j).when) →
    ∃ d' es fired, periodicInterface.serve n d = .ok d' ∧ Served now d d' es fired := by
  induction m with
  | zero =>
    intro d i n hi hn hisr hpaired hpassed
    obtain ⟨n, rfl⟩ : ∃ k, n = k + 2 := ⟨n - 2, by omega⟩
    -- the loop ends
    have hstep : d.step .periodic .scan =
        .ok { d with isr := .idle, log := d.log ++ [.returned] } := by
      simp only [Driver.step, hisr, dif_neg (show ¬ i < maxScheduledCallbacks by omega)]
      rfl
    refine ⟨{ d with isr := .idle, log := d.log ++ [.returned] }, [.returned], [], ?_, ?_⟩
    · rw [Interface.serve_step (periodicInterface_scanning hisr) hstep]
      exact Interface.serve_idle rfl
    · refine ⟨rfl, rfl, rfl, hpaired, rfl, rfl, .refl _, by simp, fun slot hslot => ?_⟩
      obtain ⟨j, hj, rfl⟩ := DriverState.mem_filled.mp hslot
      exact hpassed j (by omega) hj
  | succ m ih =>
    intro d i n hi hn hisr hpaired hpassed
    have hlt : i < maxScheduledCallbacks := by omega
    generalize hslot : d.ds.slots ⟨i, hlt⟩ = slot
    by_cases hdue : slot.id ≠ 0 ∧ slot.when ≤ now
    · -- the slot is freed, its callback runs and returns
      obtain ⟨n, rfl⟩ : ∃ k, n = k + 2 := ⟨n - 2, by omega⟩
      obtain ⟨cb, hcb⟩ : ∃ cb, slot.cb = some cb :=
        Option.ne_none_iff_exists'.mp (hslot ▸ (hpaired ⟨i, hlt⟩).not.mpr (hslot ▸ hdue.1))
      have hstep : d.step .periodic .scan = .ok { d with
          ds := d.ds.setSlot ⟨i, hlt⟩ {}
          isr := .callback now since i
          log := d.log ++ [.invoked slot.ticket cb slot.arg now] } := by
        simp only [Driver.step, hisr, dif_pos hlt, Driver.visit, hslot, if_pos hdue, hcb]
      have hpassed' : ∀ j : Fin maxScheduledCallbacks, j.val < i + 1 →
          ((d.ds.setSlot ⟨i, hlt⟩ {}).slots j).id ≠ 0 →
          now < ((d.ds.setSlot ⟨i, hlt⟩ {}).slots j).when := by
        intro j hj hid
        obtain ⟨heq, hji⟩ := DriverState.free_filled hid
        have hval : j.val ≠ i := fun hval => hji (Fin.ext hval)
        rw [heq] at hid ⊢
        exact hpassed j (by omega) hid
      obtain ⟨d', es, fired, hserve, h⟩ := ih (i := i + 1) (n := n) (d := { d with
          ds := d.ds.setSlot ⟨i, hlt⟩ {}
          isr := .scanning now since (i + 1)
          log := d.log ++ [.invoked slot.ticket cb slot.arg now] })
        (by omega) (by omega) rfl (hpaired.free _) hpassed'
      refine ⟨d', .invoked slot.ticket cb slot.arg now :: es, slot :: fired, ?_, ?_⟩
      · rw [Interface.serve_step (periodicInterface_scanning hisr) hstep,
          Interface.serve_step (l := .callbackReturns) rfl rfl, hserve]
      · refine ⟨h.idle, h.next, h.port, h.paired, ?_, ?_, ?_, ?_, h.rest⟩
        · rw [h.log, List.append_assoc]
          rfl
        · rw [List.map_cons, List.filterMap_cons_some (request_observe hcb)]
          exact congrArg (Observation.fired cb slot.arg :: ·) h.observed
        · exact (hslot ▸ DriverState.filled_free (hslot ▸ hdue.1)).trans (h.filled.cons _)
        · intro x hx
          rcases List.mem_cons.mp hx with rfl | hx
          · exact hdue.2
          · exact h.due x hx
    · -- the slot is passed over
      obtain ⟨n, rfl⟩ : ∃ k, n = k + 1 := ⟨n - 1, by omega⟩
      have hstep : d.step .periodic .scan = .ok { d with isr := .scanning now since (i + 1) } := by
        simp only [Driver.step, hisr, dif_pos hlt, Driver.visit, hslot, if_neg hdue]
      have hpassed' : ∀ j : Fin maxScheduledCallbacks, j.val < i + 1 →
          (d.ds.slots j).id ≠ 0 → now < (d.ds.slots j).when := by
        intro j hj hid
        rcases Nat.lt_or_eq_of_le (Nat.le_of_lt_succ hj) with hlt' | hval
        · exact hpassed j hlt' hid
        · obtain rfl : j = ⟨i, hlt⟩ := Fin.ext hval
          rw [hslot] at hid ⊢
          exact Nat.lt_of_not_le fun hle => hdue ⟨hid, hle⟩
      obtain ⟨d', es, fired, hserve, h⟩ := ih (i := i + 1) (n := n)
        (d := { d with isr := .scanning now since (i + 1) }) (by omega) (by omega) rfl hpaired
        hpassed'
      refine ⟨d', es, fired, ?_, ⟨h.idle, h.next, h.port, h.paired, h.log, h.observed,
        h.filled, h.due, h.rest⟩⟩
      rw [Interface.serve_step (periodicInterface_scanning hisr) hstep, hserve]

/-! ## `fire_due_callbacks` as a whole -/

/-- The callback of the event, started by an `on_timer_isr` of time `now`. -/
def SimEvent.started (now : Nat) (e : SimEvent) : Option Event :=
  e.cb.map fun cb => .invoked e.ticket cb e.arg now

/-- **`fire_due_callbacks` as a whole**: it starts the copies in their order. -/
theorem serve_events (now : Nat) (due : List SimEvent) : ∀ {s : Sim} {n : Nat},
    2 * due.length + 2 ≤ n → s.isr = .firing now due →
    ∃ s', simInterface.serve n s = .ok s' ∧ s'.isr = .idle ∧ s'.ds = s.ds ∧
      s'.log = s.log ++ (due.filterMap (SimEvent.started now) ++ [.returned]) := by
  induction due with
  | nil =>
    intro s n hn hisr
    obtain ⟨n, rfl⟩ : ∃ k, n = k + 2 := ⟨n - 2, by omega⟩
    have hstep : s.step .scan = .ok { s with isr := .idle, log := s.log ++ [.returned] } := by
      simp only [Sim.step, hisr, Sim.fire]
    refine ⟨{ s with isr := .idle, log := s.log ++ [.returned] }, ?_, rfl, rfl, rfl⟩
    rw [Interface.serve_step (simInterface_firing hisr) hstep]
    exact Interface.serve_idle rfl
  | cons e due ih =>
    intro s n hn hisr
    rw [List.length_cons] at hn
    cases hcb : e.cb with
    | none =>
      obtain ⟨n, rfl⟩ : ∃ k, n = k + 1 := ⟨n - 1, by omega⟩
      have hstep : s.step .scan = .ok { s with isr := .firing now due } := by
        simp only [Sim.step, hisr, Sim.fire, hcb]
      obtain ⟨s', hserve, hidle, hds, hlog⟩ :=
        ih (s := { s with isr := .firing now due }) (n := n) (by omega) rfl
      refine ⟨s', ?_, hidle, hds, ?_⟩
      · rw [Interface.serve_step (simInterface_firing hisr) hstep, hserve]
      · rw [hlog, List.filterMap_cons_none (by rw [SimEvent.started, hcb]; rfl)]
    | some cb =>
      obtain ⟨n, rfl⟩ : ∃ k, n = k + 2 := ⟨n - 2, by omega⟩
      have hstep : s.step .scan = .ok { s with
          isr := .callback now due
          log := s.log ++ [.invoked e.ticket cb e.arg now] } := by
        simp only [Sim.step, hisr, Sim.fire, hcb]
      have hstarted : e.started now = some (.invoked e.ticket cb e.arg now) := by
        rw [SimEvent.started, hcb]
        rfl
      obtain ⟨s', hserve, hidle, hds, hlog⟩ := ih (n := n) (s := { s with
          isr := .firing now due
          log := s.log ++ [.invoked e.ticket cb e.arg now] }) (by omega) rfl
      refine ⟨s', ?_, hidle, hds, ?_⟩
      · rw [Interface.serve_step (simInterface_firing hisr) hstep,
          Interface.serve_step (l := .callbackReturns) rfl rfl, hserve]
      · rw [hlog, List.filterMap_cons_some hstarted, List.append_assoc]
        rfl

/-- What a client sees of the started copies. -/
theorem observe_started (now : Nat) (due : List SimEvent) :
    (due.filterMap (SimEvent.started now) ++ [Event.returned]).filterMap Event.observe =
      (due.map SimEvent.request).filterMap Request.observe := by
  have hevent : ∀ e : SimEvent, (e.started now).bind Event.observe = e.request.observe := by
    intro e
    rw [SimEvent.started, Request.observe, SimEvent.request]
    cases e.cb <;> rfl
  rw [List.filterMap_append, List.filterMap_filterMap, List.filterMap_map]
  simp only [hevent]
  exact List.append_nil _

/-! ## The relation -/

/-- Both drivers are idle and hold the same requests, after `k` calls of `schedule_at`;
no interrupt was later than `t`. -/
structure Same (k t : Nat) (d : Driver) (s : Sim) : Prop where
  idle : d.isr = .idle ∧ s.isr = .idle
  next : d.ds.nextId = k + 1 ∧ s.ds.nextId = k + 1
  now : d.port.now ≤ t ∧ s.ds.virtualNow ≤ t
  paired : d.ds.Paired
  requests : (d.ds.filled.map Slot.request).Perm ((active s.ds.events).map SimEvent.request)
  ids : ((active s.ds.events).map SimEvent.id).Nodup
  id : ∀ e ∈ active s.ds.events, e.id ≠ 0 ∧ e.id ≤ k

namespace Same

variable {k t : Nat} {d : Driver} {s : Sim}

theorem initial (frequencyHz frequencyHz' now : Nat) :
    Same 0 now (Driver.initial .periodic frequencyHz now) (Sim.initial frequencyHz') where
  idle := ⟨rfl, rfl⟩
  next := ⟨rfl, rfl⟩
  now := ⟨Nat.le_refl _, Nat.zero_le _⟩
  paired _ := iff_of_true rfl rfl
  requests := .refl _
  ids := List.nodup_nil
  id _ he := absurd he List.not_mem_nil

theorem live (h : Same k t d s) : s.live = active s.ds.events := by
  rw [Sim.live, h.idle.2]
  exact List.append_nil _

/-- A filled slot and an event with one id are one request. -/
theorem request_eq (h : Same k t d s) {slot : Slot} {e : SimEvent} (hslot : slot ∈ d.ds.filled)
    (he : e ∈ active s.ds.events) (hid : slot.id = e.id) : slot.request = e.request := by
  obtain ⟨e', he', heq⟩ := List.mem_map.mp
    (h.requests.mem_iff.mp (List.mem_map_of_mem (f := Slot.request) hslot))
  have hid' : e'.id = e.id := (congrArg Request.id heq).trans hid
  rw [← List.inj_on_of_nodup_map h.ids he' he hid', heq]

/-- **`schedule_at`** finds a free slot, and both drivers give the next id. -/
theorem scheduleAt (h : Same k t d s) (hk : k + 2 < 2 ^ 32) {tp arg : Nat} {cb : Callback}
    (htp : tp ≤ u64Max) (hroom : s.live.length < maxScheduledCallbacks) :
    ∃ answer d' s', periodicInterface.call d (.scheduleAt tp cb arg) = .ok (answer, d') ∧
      simInterface.call s (.scheduleAt tp cb arg) = .ok (answer, s') ∧ Same (k + 1) t d' s' := by
  have hcall : d.isr.mayCall = true := by rw [h.idle.1]; rfl
  have htake : takeId (k + 1) = (k + 1, k + 1 + 1) := by
    rw [takeId, if_neg (Nat.succ_ne_zero k), Nat.mod_eq_of_lt hk]
  obtain ⟨i, hfirst⟩ : ∃ i, d.ds.firstSlot (fun slot => slot.id = 0) = some i := by
    rw [← Option.ne_none_iff_exists']
    intro hnone
    -- sixteen filled slots would be sixteen events
    have hfull := DriverState.filled_length fun i =>
      of_decide_eq_false (DriverState.firstSlot_none hnone i)
    have hlen := h.requests.length_eq
    rw [List.length_map, List.length_map, hfull, ← h.live] at hlen
    omega
  have hfree : (d.ds.slots i).id = 0 := of_decide_eq_true (DriverState.firstSlot_some hfirst)
  have hd : d.scheduleAt .periodic tp (some cb) arg = { d with
      ds := d.ds.fill i d.calls tp cb arg
      calls := d.calls + 1
      log := d.log ++ [.scheduled d.calls ⟨k + 1⟩ tp] } := by
    simp only [Driver.scheduleAt, DriverState.scheduleAt, hfirst, h.next.1, htake]
    rfl
  have hs : s.scheduleAt tp (some cb) arg = { s with
      ds := { s.ds with
        nextId := k + 1 + 1
        events := s.ds.events ++ [⟨k + 1, tp, some cb, arg, false, s.calls⟩] }
      calls := s.calls + 1
      log := s.log ++ [.scheduled s.calls ⟨k + 1⟩ tp] } := by
    simp only [Sim.scheduleAt, SimState.scheduleAt, h.next.2, htake]
  have hok : periodicInterface.perform d (.scheduleAt tp cb arg) =
      .ok (d.scheduleAt .periodic tp (some cb) arg) := Driver.step_scheduleAt hcall htp
  have hok' : simInterface.perform s (.scheduleAt tp cb arg) =
      .ok (s.scheduleAt tp (some cb) arg) := Sim.step_scheduleAt htp
  have hanswer : periodicInterface.call d (.scheduleAt tp cb arg) =
      .ok (↑[Observation.handle ⟨k + 1⟩], d.scheduleAt .periodic tp (some cb) arg) :=
    Interface.call_ok hok (congrArg Driver.log hd)
  have hanswer' : simInterface.call s (.scheduleAt tp cb arg) =
      .ok (↑[Observation.handle ⟨k + 1⟩], s.scheduleAt tp (some cb) arg) :=
    Interface.call_ok hok' (congrArg Sim.log hs)
  refine ⟨_, _, _, hanswer, hanswer', ?_⟩
  rw [hd, hs]
  have hactive : active (s.ds.events ++ [⟨k + 1, tp, some cb, arg, false, s.calls⟩]) =
      active s.ds.events ++ [⟨k + 1, tp, some cb, arg, false, s.calls⟩] := by
    simp [active]
  constructor
  case idle => exact h.idle
  case next =>
    refine ⟨?_, rfl⟩
    show (takeId d.ds.nextId).2 = _
    rw [h.next.1, htake]
  case now => exact h.now
  case paired => exact h.paired.fill i _ _ _ _
  case requests =>
    have hfree' : (({ d.ds with nextId := (takeId d.ds.nextId).2 } : DriverState).slots i).id = 0 :=
      hfree
    have hid : (⟨(takeId d.ds.nextId).1, tp, some cb, arg, d.calls⟩ : Slot).id ≠ 0 :=
      takeId_ne_zero _
    have hfill := (DriverState.filled_setSlot hfree' hid).map Slot.request
    rw [h.next.1, htake] at hfill
    show (List.map _ (d.ds.fill i d.calls tp cb arg).filled).Perm (List.map _ (active _))
    rw [DriverState.fill, h.next.1, htake, hactive, List.map_append]
    exact (hfill.trans (h.requests.cons _)).trans (List.perm_append_singleton _ _).symm
  case ids =>
    show ((active _).map _).Nodup
    rw [hactive, List.map_append, List.map_singleton, (List.perm_append_singleton _ _).nodup_iff,
      List.nodup_cons]
    refine ⟨fun hmem => ?_, h.ids⟩
    obtain ⟨e, he, heq⟩ := List.mem_map.mp hmem
    have hle := (h.id e he).2
    have hnew : e.id = k + 1 := heq
    omega
  case id =>
    intro e he
    have he : e ∈ active _ := he
    rw [hactive] at he
    rcases List.mem_append.mp he with he | he
    · exact ⟨(h.id e he).1, Nat.le_succ_of_le (h.id e he).2⟩
    · rw [List.mem_singleton.mp he]
      exact ⟨Nat.succ_ne_zero k, Nat.le_refl _⟩

/-- Fewer requests, and nothing else has changed. -/
theorem shrink (h : Same k t d s) {d' : Driver} {s' : Sim} (hidle : d'.isr = .idle ∧ s'.isr = .idle)
    (hnext : d'.ds.nextId = d.ds.nextId ∧ s'.ds.nextId = s.ds.nextId) {t' : Nat}
    (hnow : d'.port.now ≤ t' ∧ s'.ds.virtualNow ≤ t') (hpaired : d'.ds.Paired)
    (hrequests : (d'.ds.filled.map Slot.request).Perm
      ((active s'.ds.events).map SimEvent.request))
    (hactive : (active s'.ds.events).Subperm (active s.ds.events)) : Same k t' d' s' where
  idle := hidle
  next := ⟨hnext.1.trans h.next.1, hnext.2.trans h.next.2⟩
  now := hnow
  paired := hpaired
  requests := hrequests
  ids := by
    obtain ⟨l, hperm, hsub⟩ := hactive
    exact (hperm.map _).nodup_iff.mp ((hsub.map _).nodup h.ids)
  id e he := h.id e (hactive.subset he)

/-- **`cancel`** finds a slot exactly if it finds an event. -/
theorem cancel (h : Same k t d s) (h' : Handle) :
    ∃ answer d' s', periodicInterface.call d (.cancel h') = .ok (answer, d') ∧
      simInterface.call s (.cancel h') = .ok (answer, s') ∧ Same k t d' s' := by
  have hcall : d.isr.mayCall = true := by rw [h.idle.1]; rfl
  -- it is enough that the results agree
  have hanswer : (d.ds.cancel .periodic d.port h').1 = (s.ds.cancel h').1 →
      Same k t (d.cancel .periodic h') (s.cancel h') →
      ∃ answer d' s', periodicInterface.call d (.cancel h') = .ok (answer, d') ∧
        simInterface.call s (.cancel h') = .ok (answer, s') ∧ Same k t d' s' := by
    intro hresult hsame
    have hok : periodicInterface.perform d (.cancel h') = .ok (d.cancel .periodic h') :=
      Driver.step_cancel hcall
    have hanswer : periodicInterface.call d (.cancel h') =
        .ok (↑[Observation.result (d.ds.cancel .periodic d.port h').1], d.cancel .periodic h') :=
      Interface.call_ok hok rfl
    have hok' : simInterface.perform s (.cancel h') = .ok (s.cancel h') := rfl
    refine ⟨_, _, _, hanswer, ?_, hsame⟩
    rw [hresult]
    exact Interface.call_ok hok' rfl
  by_cases hid : h'.id = 0
  · refine hanswer ?_ ?_
    · simp only [DriverState.cancel, SimState.cancel, if_pos hid]
    · simp only [Driver.cancel, Sim.cancel, DriverState.cancel, SimState.cancel, if_pos hid]
      refine h.shrink ?_ ?_ ?_ ?_ ?_ ?_
      exacts [h.idle, ⟨rfl, rfl⟩, h.now, h.paired, h.requests, .refl _]
  · cases hfind : d.ds.find h' with
    | none =>
      -- an event with the id would be the request of a slot
      have hfalse : (SimState.cancelFirst h'.id s.ds.events).1 = false := by
        rw [Bool.eq_false_iff]
        intro htrue
        obtain ⟨e, he, hperm⟩ := cancelFirst_true htrue
        have hmem := List.mem_map_of_mem (f := SimEvent.request)
          (hperm.mem_iff.mpr List.mem_cons_self)
        obtain ⟨slot, hslot, heq⟩ := List.mem_map.mp (h.requests.mem_iff.mpr hmem)
        obtain ⟨i, -, rfl⟩ := DriverState.mem_filled.mp hslot
        exact DriverState.find_none hfind i ((congrArg Request.id heq).trans he)
      obtain ⟨heq, -⟩ := cancelFirst_false hfalse
      refine hanswer ?_ ?_
      · simp only [DriverState.cancel, SimState.cancel, if_neg hid, hfind, hfalse]
      · simp only [Driver.cancel, Sim.cancel, DriverState.cancel, SimState.cancel, if_neg hid,
          hfind, heq]
        refine h.shrink ?_ ?_ ?_ ?_ ?_ ?_
        exacts [h.idle, ⟨rfl, rfl⟩, h.now, h.paired, h.requests, .refl _]
    | some i =>
      have hi := DriverState.find_some hfind
      have hid' : (d.ds.slots i).id ≠ 0 := hi ▸ hid
      have hfree := DriverState.filled_free hid'
      have hslot : d.ds.slots i ∈ d.ds.filled := hfree.mem_iff.mpr List.mem_cons_self
      have htrue : (SimState.cancelFirst h'.id s.ds.events).1 = true := by
        by_contra hfalse
        obtain ⟨-, hnone⟩ := cancelFirst_false (Bool.eq_false_iff.mpr hfalse)
        have hmem := List.mem_map_of_mem (f := Slot.request) hslot
        obtain ⟨e, he, heq⟩ := List.mem_map.mp (h.requests.mem_iff.mp hmem)
        exact hnone e he ((congrArg Request.id heq).trans hi)
      obtain ⟨e, he, hperm⟩ := cancelFirst_true htrue
      have hsame := h.request_eq hslot (hperm.mem_iff.mpr List.mem_cons_self) (hi.trans he.symm)
      refine hanswer ?_ ?_
      · simp only [DriverState.cancel, SimState.cancel, if_neg hid, hfind, htrue]
      · simp only [Driver.cancel, Sim.cancel, DriverState.cancel, SimState.cancel, if_neg hid,
          hfind]
        refine h.shrink ?_ ?_ ?_ ?_ ?_ ?_
        · exact h.idle
        · exact ⟨rfl, rfl⟩
        · exact h.now
        · exact h.paired.free i
        · -- the same request is gone on both sides
          have hmap := ((hfree.map Slot.request).symm.trans h.requests).trans
            (hperm.map SimEvent.request)
          rw [List.map_cons, List.map_cons, hsame] at hmap
          exact hmap.cons_inv
        · exact (List.sublist_cons_self _ _).subperm.trans hperm.symm.subperm

/-- **An interrupt** starts the same callbacks. -/
theorem interrupt (h : Same k t d s) {now : Nat} (ht : t ≤ now) (hnow : now ≤ u64Max)
    (hfew : s.live.length ≤ maxScheduledCallbacks) :
    ∃ answer d' s', periodicInterface.call d (.interrupt now) = .ok (answer, d') ∧
      simInterface.call s (.interrupt now) = .ok (answer, s') ∧ Same k now d' s' := by
  have hrange : now < 2 ^ 64 := by
    unfold u64Max at hnow
    omega
  -- both clocks are set to `now`
  have hclock : (d.port.now + (now - d.port.now)) % 2 ^ 64 = now := by
    rw [Nat.add_sub_of_le (h.now.1.trans ht), Nat.mod_eq_of_lt hrange]
  have hclock' : max ((s.ds.virtualNow + (now - s.ds.virtualNow)) % 2 ^ 64) s.ds.virtualNow =
      now := by
    rw [Nat.add_sub_of_le (h.now.2.trans ht), Nat.mod_eq_of_lt hrange]
    exact Nat.max_eq_left (h.now.2.trans ht)
  -- the slots that are due are started
  obtain ⟨d', es, fired, hserve, hserved⟩ := serve_scanning now d.calls maxScheduledCallbacks
    (i := 0) (n := handlerSteps) (d := { d with
      port := { d.port with now := now }
      isr := .scanning now d.calls 0
      log := d.log ++ [.entered now] }) (Nat.zero_add _) (Nat.le_refl _) rfl h.paired
    (fun j hj => absurd hj (Nat.not_lt_zero _))
  have hanswer : periodicInterface.call d (.interrupt now) =
      .ok (↑((.entered now :: es).filterMap Event.observe), d') := by
    refine Interface.call_ok ?_ ?_
    · have hidle := h.idle.1
      simp only [Interface.perform, periodicInterface, Driver.step, hclock, Except.bind, hidle,
        if_true]
      exact hserve
    · show d'.log = d.log ++ (.entered now :: es)
      rw [hserved.log, List.append_assoc]
      rfl
  -- the events that are due are copied, and the copies are started
  have hparts := active_enter s.ds.events now
  have hlen : (s.ds.events.filter fun e => e.due now).length ≤ maxScheduledCallbacks := by
    have hlength := hparts.length_eq
    rw [List.length_append, ← h.live] at hlength
    omega
  obtain ⟨s', hserve', hidle', hds', hlog'⟩ := serve_events now
    (s.ds.events.filter fun e => e.due now) (n := handlerSteps)
    (s := ({ s with ds := { s.ds with virtualNow := now } } : Sim).enter)
    (by unfold handlerSteps; omega) rfl
  have hobs' := observe_started now (s.ds.events.filter fun e => e.due now)
  generalize (s.ds.events.filter fun e => e.due now).filterMap (SimEvent.started now) ++
    [.returned] = es' at hlog' hobs'
  have hanswer' : simInterface.call s (.interrupt now) =
      .ok (↑((.entered now :: es').filterMap Event.observe), s') := by
    refine Interface.call_ok ?_ ?_
    · have hidle := h.idle.2
      simp only [Interface.perform, simInterface, Sim.step, hclock', Except.bind, hidle, if_true]
      exact hserve'
    · show s'.log = s.log ++ (.entered now :: es')
      rw [hlog', Sim.enter, List.append_assoc]
      rfl
  -- both have split the same requests
  have hsplit : (fired.map Slot.request ++ d'.ds.filled.map Slot.request).Perm
      ((s.ds.events.filter fun e => e.due now).map SimEvent.request ++
        (active s'.ds.events).map SimEvent.request) := by
    rw [hds', ← List.map_append, ← List.map_append]
    refine ((hserved.filled.map Slot.request).symm.trans h.requests).trans ?_
    exact (hparts.trans List.perm_append_comm).map SimEvent.request
  have hlater : ∀ e ∈ active s'.ds.events, now < e.when := by
    rw [hds']
    intro e he
    obtain ⟨hmem, hactive⟩ := List.mem_filter.mp he
    obtain ⟨hmem, hkept⟩ := List.mem_filter.mp hmem
    have hid := (h.id e (List.mem_filter.mpr ⟨hmem, hactive⟩)).1
    simpa [SimEvent.due, hid, show e.cancelled = false by simpa using hactive] using hkept
  have hdue : ∀ e ∈ s.ds.events.filter fun e => e.due now, e.when ≤ now := fun e he =>
    (of_decide_eq_true (List.mem_filter.mp he).2).2.2
  obtain ⟨hfired, hrest⟩ := perm_of_append (p := fun q => q.when ≤ now) hsplit
    (List.forall_mem_map.mpr hserved.due)
    (List.forall_mem_map.mpr fun slot hslot => Nat.not_le_of_lt (hserved.rest slot hslot))
    (List.forall_mem_map.mpr hdue)
    (List.forall_mem_map.mpr fun e he => Nat.not_le_of_lt (hlater e he))
  refine ⟨_, d', s', hanswer, ?_, ?_⟩
  · rw [hanswer']
    refine congrArg Except.ok (Prod.ext (Multiset.coe_eq_coe.mpr ?_) rfl)
    show (es'.filterMap Event.observe).Perm (es.filterMap Event.observe)
    rw [hserved.observed, hobs']
    exact (hfired.filterMap _).symm
  · refine h.shrink ?_ ?_ ?_ ?_ ?_ ?_
    · exact ⟨hserved.idle, hidle'⟩
    · exact ⟨hserved.next, by rw [hds']; rfl⟩
    · rw [hserved.port, hds']
      exact ⟨Nat.le_refl _, Nat.le_refl _⟩
    · exact hserved.paired
    · exact hrest
    · rw [hds']
      refine (List.Sublist.subperm ?_).trans hparts.symm.subperm
      exact List.sublist_append_left _ _

/-- **One operation.** -/
theorem call (h : Same k t d s) {op : ClientOp} (hrange : op.InRange)
    (hk : op.schedules = true → k + 2 < 2 ^ 32) (htime : ∀ now, op.time = some now → t ≤ now)
    (hfew : s.live.length ≤ maxScheduledCallbacks)
    (hroom : ∀ answer s', simInterface.call s op = .ok (answer, s') →
      s'.live.length ≤ maxScheduledCallbacks) :
    ∃ answer d' s', periodicInterface.call d op = .ok (answer, d') ∧
      simInterface.call s op = .ok (answer, s') ∧
      Same (k + if op.schedules then 1 else 0) (op.time.getD t) d' s' := by
  cases op with
  | scheduleAt tp cb arg =>
    refine h.scheduleAt (hk rfl) hrange ?_
    -- one more event is pending after the call
    have hok : simInterface.perform s (.scheduleAt tp cb arg) =
        .ok (s.scheduleAt tp (some cb) arg) := Sim.step_scheduleAt hrange
    have hafter := hroom _ _ (Interface.call_ok hok rfl)
    have hlive : (s.scheduleAt tp (some cb) arg).live.length = s.live.length + 1 := by
      simp [Sim.live, Sim.scheduleAt, SimState.scheduleAt, active, h.idle.2, SimIsr.due]
    omega
  | cancel h' => exact h.cancel h'
  | interrupt now => exact h.interrupt (htime now rfl) hrange hfew

end Same

/-! ## Runs -/

/-- **The simulation driver and the periodic one answer the same.** Let the calls and
interrupts be any, with interrupts at times that do not decrease, fewer than
`2 ^ 32 - 1` calls of `schedule_at` and never more than sixteen pending callbacks. Then
both drivers perform all of them, return the same handles and the same results of
`cancel`, and each interrupt starts the same callbacks with the same arguments, each as
often as in the other driver. -/
theorem same_answers (frequencyHz frequencyHz' now : Nat) (ops : List ClientOp)
    (hrange : ∀ op ∈ ops, op.InRange)
    (htimes : (now :: ops.filterMap ClientOp.time).Pairwise (· ≤ ·))
    (hcalls : ops.countP ClientOp.schedules < 2 ^ 32 - 1)
    (hpending : simInterface.Throughout (fun s => s.live.length ≤ maxScheduledCallbacks)
      (Sim.initial frequencyHz') ops) :
    ∃ answers d s,
      periodicInterface.run (Driver.initial .periodic frequencyHz now) ops = .ok (answers, d) ∧
      simInterface.run (Sim.initial frequencyHz') ops = .ok (answers, s) := by
  have hsame := Same.initial frequencyHz frequencyHz' now
  replace hcalls : 0 + ops.countP ClientOp.schedules < 2 ^ 32 - 1 := by omega
  -- induction over the operations, with the relation of the states
  generalize Driver.initial .periodic frequencyHz now = d at hsame ⊢
  generalize Sim.initial frequencyHz' = s at hsame hpending ⊢
  generalize 0 = k at hsame hcalls
  induction ops generalizing k now d s with
  | nil => exact ⟨[], d, s, rfl, rfl⟩
  | cons op ops ih =>
    obtain ⟨hnow, htail⟩ := List.pairwise_cons.mp htimes
    rw [List.countP_cons] at hcalls
    obtain ⟨answer, d', s', hd, hs, hsame'⟩ := hsame.call (hrange op List.mem_cons_self)
      (fun hop => by rw [if_pos hop] at hcalls; omega)
      (fun u hu => hnow u (by rw [List.filterMap_cons_some hu]; exact List.mem_cons_self))
      hpending.1 (fun answer s' hcall => (hpending.2 answer s' hcall).head)
    have htimes' : (op.time.getD now :: ops.filterMap ClientOp.time).Pairwise (· ≤ ·) := by
      cases hop : op.time with
      | none =>
        rw [List.filterMap_cons_none hop] at htimes
        exact htimes
      | some u =>
        rw [List.filterMap_cons_some hop] at htail
        exact htail
    obtain ⟨answers, d'', s'', hrun, hrun'⟩ := ih (op.time.getD now)
      (fun op hop => hrange op (List.mem_cons_of_mem _ hop)) htimes' d' s'
      (hpending.2 answer s' hs) _ hsame' (by omega)
    exact ⟨answer :: answers, d'', s'', Interface.run_cons hd hrun, Interface.run_cons hs hrun'⟩

/-- Two callbacks are scheduled, the second one is cancelled, the first one is started. -/
theorem same_answers_two : ∃ answers d s,
    periodicInterface.run (Driver.initial .periodic 1000 3)
      [.scheduleAt 5 7 1, .scheduleAt 6 8 2, .cancel ⟨2⟩, .interrupt 6] = .ok (answers, d) ∧
    simInterface.run (Sim.initial 1000)
      [.scheduleAt 5 7 1, .scheduleAt 6 8 2, .cancel ⟨2⟩, .interrupt 6] = .ok (answers, s) := by
  refine same_answers 1000 1000 3 _ (by decide) (by decide) (by decide) ?_
  exact .cons (by decide) rfl (.cons (by decide) rfl (.cons (by decide) rfl
    (.cons (by decide) rfl (Nat.zero_le _))))

end Cortos.Time
