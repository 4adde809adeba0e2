import Cortos.Time.RealtimeClock

/-!
# The simulation driver between threads

The simulation driver is called by any number of OS threads at once: those of the application
and, in `RealTime` mode, the `realtime_thread` that `start` creates. `Cortos.Time.Simulation`
has one `on_timer_isr` at a time; here each thread has a stack of calls in progress, since a
callback may call the driver again, and the steps of different threads interleave.

- A step is an atomic operation, or a section under the mutex. None of these sections calls
  out, so each is one step.
- The mode, the epoch and the handle of the thread are plain variables; they are read and
  written in the step of the atomic operation before them, or in one of their own.
- The steady clock runs on by itself (`elapse`).

Calls of `schedule_at` with a callback are numbered and recorded, and so is what becomes of
their events: `invoked`, `withdrawn` by a `cancel` that returned true, or `cleared` by `reset`.
`ThreadsMove` says what a step can do.
-/

namespace Cortos.Time

open Lib

/-! ## Threads and calls in progress -/

/-- An OS thread that calls the driver: one of the application, or the `n`-th
`realtime_thread`. -/
inductive Agent where
  | client (n : Nat)
  | worker (n : Nat)
  deriving DecidableEq, Repr

/-- A call in progress, by where it is. -/
inductive Frame where
  /-- `schedule_at`, whose first `fetch_add` has returned 0. -/
  | again (e : SimEvent)
  /-- `schedule_at`, before it takes the mutex. -/
  | push (e : SimEvent)
  /-- `on_timer_isr`, before it reads the time. -/
  | isr
  /-- `fire_due_callbacks`, before it takes the mutex. -/
  | collect (now : Nat)
  /-- `fire_due_callbacks`, at its next copy. -/
  | fire (now : Nat) (due : List SimEvent)
  /-- In a callback of `fire_due_callbacks`. -/
  | callback (now : Nat) (due : List SimEvent)
  /-- `advance_to`, before it loads `virtual_now`. -/
  | advanceTo (tp : Nat)
  /-- `advance_to`, before it stores `virtual_now`. -/
  | store (target : Nat)
  /-- `start`, before it looks at the mode. -/
  | start
  /-- `start` has set `running`. -/
  | epoch
  /-- `start`, before it creates the thread. -/
  | spawn
  /-- `stop` has reset `running`. -/
  | join
  /-- `reset`, before it takes the mutex. -/
  | clear (tp : Nat)
  /-- `reset`, before it stores `next_id`. -/
  | resetId (tp : Nat)
  /-- `reset`, before it stores `virtual_now`. -/
  | resetTime (tp : Nat)
  /-- `reset`, before it stores `started`. -/
  | resetStarted
  /-- `realtime_thread_main`, at the test of `running`. -/
  | loop
  deriving DecidableEq, Repr

/-- What a thread can call. -/
inductive ThreadsCall where
  | scheduleAt (tp : Nat) (cb : Option Callback) (arg : Nat)
  | cancel (h : Handle)
  | onTimerIsr
  | advanceTo (tp : Nat)
  | advanceBy (d : Nat)
  | start
  | stop
  | setMode (mode : Mode)
  | reset (tp : Nat)
  deriving DecidableEq, Repr

inductive ThreadsLabel where
  /-- Thread `a` makes a call. -/
  | call (a : Agent) (c : ThreadsCall)
  /-- Thread `a` goes on with its innermost call. -/
  | next (a : Agent)
  /-- The steady clock advances. -/
  | elapse (ns : Nat)
  deriving DecidableEq, Repr

inductive ThreadsFault where
  | disabled
  /-- The assertion of `set_mode` and `reset` that the thread does not run. -/
  | assertNotRunning
  /-- The assertion of `advance_to` and `advance_by`. -/
  | assertVirtual
  /-- A `std::thread` that is joinable is overwritten, or a thread joins itself. -/
  | terminate
  deriving DecidableEq, Repr

/-! ## The driver -/

/-- The arguments of a call of `schedule_at`. -/
structure SimRequest where
  tp : Nat
  cb : Callback
  arg : Nat
  deriving DecidableEq, Repr

/-- A callback that has been called, and the time its `on_timer_isr` had read. -/
structure Invocation where
  event : SimEvent
  now : Nat
  deriving DecidableEq, Repr

/-- The driver, the calls in progress, and the record of what became of the events. -/
structure SimThreads where
  clock : SimClock
  running : Bool := false
  /-- The worker whose handle `realtime_thread` holds. -/
  realtimeThread : Option Nat := none
  /-- How many workers have been created. -/
  workers : Nat := 0
  stack : Agent → List Frame := fun _ => []
  steadyNow : Int := 0
  requests : List SimRequest := []
  invoked : List Invocation := []
  withdrawn : List SimEvent := []
  cleared : List SimEvent := []

/-- A thread is in code of the application: outside the driver, or in a callback. -/
def Agent.inApplication : Agent → List Frame → Bool
  | .client _, [] => true
  | _, .callback _ _ :: _ => true
  | _, _ => false

namespace SimThreads

/-- The stack of thread `a` becomes `fs`. -/
def goto (s : SimThreads) (a : Agent) (fs : List Frame) : SimThreads :=
  { s with stack := Function.update s.stack a fs }

def setEvents (s : SimThreads) (es : List SimEvent) : SimThreads :=
  { s with clock := { s.clock with ds := { s.clock.ds with events := es } } }

def setVirtualNow (s : SimThreads) (now : Nat) : SimThreads :=
  { s with clock := { s.clock with ds := { s.clock.ds with virtualNow := now } } }

/-- `next_id.fetch_add(1)`. -/
def fetchAdd (s : SimThreads) : SimThreads :=
  { s with clock := { s.clock with ds := { s.clock.ds with
    nextId := (s.clock.ds.nextId + 1) % 2 ^ 32 } } }

/-- The event of the next call of `schedule_at`, before it has an id. -/
def newEvent (s : SimThreads) (tp : Nat) (cb : Callback) (arg : Nat) : SimEvent :=
  { id := 0, when := tp, cb := some cb, arg := arg, ticket := s.requests.length }

/-- `schedule_at` up to its first `fetch_add`. -/
def scheduleAt (s : SimThreads) (a : Agent) (tp : Nat) (cb : Callback) (arg : Nat) : SimThreads :=
  let e := s.newEvent tp cb arg
  let id := s.clock.ds.nextId
  { s.fetchAdd.goto a ((if id = 0 then .again e else .push { e with id := id }) :: s.stack a) with
    requests := s.requests ++ [⟨tp, cb, arg⟩] }

/-- `cancel`. -/
def cancel (s : SimThreads) (h : Handle) : SimThreads :=
  if h.id = 0 then s
  else
    { s.setEvents (SimState.cancelFirst h.id s.clock.ds.events).2 with
      withdrawn := s.withdrawn ++
        (s.clock.ds.events.find? fun e => e.id = h.id ∧ e.cancelled = false).toList }

/-- The section of `fire_due_callbacks` under the mutex. -/
def collect (s : SimThreads) (a : Agent) (now : Nat) (fs : List Frame) : SimThreads :=
  (s.setEvents (s.clock.ds.events.filter fun e => !(e.cancelled || e.due now))).goto a
    (.fire now (s.clock.ds.events.filter fun e => e.due now) :: fs)

/-- The section of `reset` under the mutex. -/
def clear (s : SimThreads) : SimThreads :=
  { s.setEvents [] with cleared := s.cleared ++ active s.clock.ds.events }

/-- `next_id.store(1)`. -/
def resetId (s : SimThreads) : SimThreads :=
  { s with clock := { s.clock with ds := { s.clock.ds with nextId := 1 } } }

/-- The end of `reset`: `started` and the epoch. -/
def resetStarted (s : SimThreads) : SimThreads :=
  { s with clock := { s.clock with ds := { s.clock.ds with started := false }, realtimeEpoch := 0 } }

/-- Thread `a` makes a call. -/
def call (s : SimThreads) (a : Agent) : ThreadsCall → Except ThreadsFault SimThreads
  | .scheduleAt tp cb arg =>
    match cb with
    | none => .ok s
    | some cb => .ok (s.scheduleAt a tp cb arg)
  | .cancel h => .ok (s.cancel h)
  | .onTimerIsr => .ok (s.goto a (.isr :: s.stack a))
  | .advanceTo tp =>
    if s.clock.mode = .virtual then .ok (s.goto a (.advanceTo tp :: s.stack a))
    else .error .assertVirtual
  | .advanceBy d =>
    if s.clock.mode = .virtual then
      .ok (s.goto a (.advanceTo ((s.clock.ds.virtualNow + d) % 2 ^ 64) :: s.stack a))
    else .error .assertVirtual
  | .start =>
    .ok { s.goto a (.start :: s.stack a) with
      clock := { s.clock with ds := { s.clock.ds with started := true } } }
  | .stop =>
    if s.clock.mode = .realTime ∧ s.running then
      .ok { s.goto a (.join :: s.stack a) with running := false }
    else .ok s
  | .setMode mode =>
    if s.running then .error .assertNotRunning
    else .ok { s with clock := { s.clock with mode := mode } }
  | .reset tp =>
    if s.running then .error .assertNotRunning
    else .ok (s.goto a (.clear tp :: s.stack a))

/-- `fire_due_callbacks` at its next copy. -/
def fire (s : SimThreads) (a : Agent) (now : Nat) (fs : List Frame) : List SimEvent → SimThreads
  | [] => s.goto a fs
  | e :: due =>
    match e.cb with
    | none => s.goto a (.fire now due :: fs)
    | some _ => { s.goto a (.callback now due :: fs) with invoked := s.invoked ++ [⟨e, now⟩] }

/-- `realtime_thread = std::thread(realtime_thread_main)`. -/
def spawn (s : SimThreads) (a : Agent) (fs : List Frame) : Except ThreadsFault SimThreads :=
  if s.realtimeThread.isSome then .error .terminate
  else .ok { (s.goto a fs).goto (.worker s.workers) [.loop] with
    realtimeThread := some s.workers
    workers := s.workers + 1 }

/-- `realtime_thread.join()`, if it is joinable. The call returns when the worker has ended. -/
def join (s : SimThreads) (a : Agent) (fs : List Frame) : Except ThreadsFault SimThreads :=
  match s.realtimeThread with
  | none => .ok (s.goto a fs)
  | some w =>
    if a = .worker w then .error .terminate
    else if s.stack (.worker w) = [] then .ok { s.goto a fs with realtimeThread := none }
    else .error .disabled

/-- Thread `a` goes on with call `f`; `fs` are the calls around it. -/
def frameStep (s : SimThreads) (a : Agent) (fs : List Frame) :
    Frame → Except ThreadsFault SimThreads
  | .again e => .ok (s.fetchAdd.goto a (.push { e with id := s.clock.ds.nextId } :: fs))
  | .push e => .ok ((s.setEvents (s.clock.ds.events ++ [e])).goto a fs)
  | .isr => .ok (s.goto a (.collect (s.clock.now s.steadyNow) :: fs))
  | .collect now => .ok (s.collect a now fs)
  | .fire now due => .ok (s.fire a now fs due)
  | .callback now due => .ok (s.goto a (.fire now due :: fs))
  | .advanceTo tp => .ok (s.goto a (.store (max tp s.clock.ds.virtualNow) :: fs))
  | .store target => .ok ((s.setVirtualNow target).goto a (.isr :: fs))
  | .start =>
    if s.clock.mode = .realTime ∧ s.running = false then
      .ok { s.goto a (.epoch :: fs) with running := true }
    else .ok (s.goto a fs)
  | .epoch =>
    .ok { s.goto a (.spawn :: fs) with clock := { s.clock with realtimeEpoch := s.steadyNow } }
  | .spawn => s.spawn a fs
  | .join => s.join a fs
  | .clear tp => .ok (s.clear.goto a (.resetId tp :: fs))
  | .resetId tp => .ok (s.resetId.goto a (.resetTime tp :: fs))
  | .resetTime tp => .ok ((s.setVirtualNow tp).goto a (.resetStarted :: fs))
  | .resetStarted => .ok (s.resetStarted.goto a fs)
  | .loop => .ok (s.goto a (if s.running then .isr :: .loop :: fs else fs))

/-- One step. -/
def step (s : SimThreads) : ThreadsLabel → Except ThreadsFault SimThreads
  | .call a c => if a.inApplication (s.stack a) then s.call a c else .error .disabled
  | .next a =>
    match s.stack a with
    | [] => .error .disabled
    | f :: fs => s.frameStep a fs f
  | .elapse ns => .ok { s with steadyNow := s.steadyNow + ns }

/-- A driver that has just been initialised. -/
def initial (frequencyHz : Nat) : SimThreads where
  clock := { ds := { tickFrequencyHz := frequencyHz } }

end SimThreads

/-- The simulation driver after `initialise(frequency_hz)`, called by any number of threads. -/
def simThreads (frequencyHz : Nat) : Lts SimThreads ThreadsLabel ThreadsFault where
  init s := s = SimThreads.initial frequencyHz
  step := SimThreads.step

/-- The concrete runs are at 1 kHz. -/
theorem simThreads_init_1000 : (simThreads 1000).init (SimThreads.initial 1000) := rfl

variable {s s' : SimThreads} {l : ThreadsLabel} {a b : Agent} {f : Frame} {fs : List Frame}

/-! ## What a step can do -/

/-- The moves of the driver. -/
inductive ThreadsMove (s : SimThreads) : ThreadsLabel → SimThreads → Prop where
  | refuse {a : Agent} {tp arg : Nat} : ThreadsMove s (.call a (.scheduleAt tp none arg)) s
  | schedule {a : Agent} {tp arg : Nat} {cb : Callback}
      (happ : a.inApplication (s.stack a) = true) :
      ThreadsMove s (.call a (.scheduleAt tp (some cb) arg)) (s.scheduleAt a tp cb arg)
  | cancel {a : Agent} {h : Handle} : ThreadsMove s (.call a (.cancel h)) (s.cancel h)
  | enter {a : Agent} (happ : a.inApplication (s.stack a) = true) :
      ThreadsMove s (.call a .onTimerIsr) (s.goto a (.isr :: s.stack a))
  | advance {a : Agent} {c : ThreadsCall} {tp : Nat} (happ : a.inApplication (s.stack a) = true)
      (hc : c = .advanceTo tp ∨ ∃ d, c = .advanceBy d ∧ tp = (s.clock.ds.virtualNow + d) % 2 ^ 64) :
      ThreadsMove s (.call a c) (s.goto a (.advanceTo tp :: s.stack a))
  | start {a : Agent} (happ : a.inApplication (s.stack a) = true) :
      ThreadsMove s (.call a .start) { s.goto a (.start :: s.stack a) with
        clock := { s.clock with ds := { s.clock.ds with started := true } } }
  | stop {a : Agent} (happ : a.inApplication (s.stack a) = true) (hmode : s.clock.mode = .realTime)
      (hrun : s.running = true) :
      ThreadsMove s (.call a .stop) { s.goto a (.join :: s.stack a) with running := false }
  | stopNothing {a : Agent} (hnot : ¬ (s.clock.mode = .realTime ∧ s.running = true)) :
      ThreadsMove s (.call a .stop) s
  | setMode {a : Agent} {mode : Mode} (hrun : s.running = false) :
      ThreadsMove s (.call a (.setMode mode)) { s with clock := { s.clock with mode := mode } }
  | reset {a : Agent} {tp : Nat} (happ : a.inApplication (s.stack a) = true)
      (hrun : s.running = false) :
      ThreadsMove s (.call a (.reset tp)) (s.goto a (.clear tp :: s.stack a))
  | again {a : Agent} {e : SimEvent} {fs : List Frame} (hstack : s.stack a = .again e :: fs) :
      ThreadsMove s (.next a) (s.fetchAdd.goto a (.push { e with id := s.clock.ds.nextId } :: fs))
  | push {a : Agent} {e : SimEvent} {fs : List Frame} (hstack : s.stack a = .push e :: fs) :
      ThreadsMove s (.next a) ((s.setEvents (s.clock.ds.events ++ [e])).goto a fs)
  | readTime {a : Agent} {fs : List Frame} (hstack : s.stack a = .isr :: fs) :
      ThreadsMove s (.next a) (s.goto a (.collect (s.clock.now s.steadyNow) :: fs))
  | collect {a : Agent} {now : Nat} {fs : List Frame} (hstack : s.stack a = .collect now :: fs) :
      ThreadsMove s (.next a) (s.collect a now fs)
  | leave {a : Agent} {now : Nat} {fs : List Frame} (hstack : s.stack a = .fire now [] :: fs) :
      ThreadsMove s (.next a) (s.goto a fs)
  /-- A copy without a callback. -/
  | skip {a : Agent} {now : Nat} {e : SimEvent} {due : List SimEvent} {fs : List Frame}
      (hstack : s.stack a = .fire now (e :: due) :: fs) (hcb : e.cb = none) :
      ThreadsMove s (.next a) (s.goto a (.fire now due :: fs))
  | fire {a : Agent} {now : Nat} {e : SimEvent} {due : List SimEvent} {fs : List Frame}
      (hstack : s.stack a = .fire now (e :: due) :: fs) :
      ThreadsMove s (.next a)
        { s.goto a (.callback now due :: fs) with invoked := s.invoked ++ [⟨e, now⟩] }
  | callbackReturns {a : Agent} {now : Nat} {due : List SimEvent} {fs : List Frame}
      (hstack : s.stack a = .callback now due :: fs) :
      ThreadsMove s (.next a) (s.goto a (.fire now due :: fs))
  | load {a : Agent} {tp : Nat} {fs : List Frame} (hstack : s.stack a = .advanceTo tp :: fs) :
      ThreadsMove s (.next a) (s.goto a (.store (max tp s.clock.ds.virtualNow) :: fs))
  | store {a : Agent} {target : Nat} {fs : List Frame} (hstack : s.stack a = .store target :: fs) :
      ThreadsMove s (.next a) ((s.setVirtualNow target).goto a (.isr :: fs))
  | startRun {a : Agent} {fs : List Frame} (hstack : s.stack a = .start :: fs)
      (hmode : s.clock.mode = .realTime) (hrun : s.running = false) :
      ThreadsMove s (.next a) { s.goto a (.epoch :: fs) with running := true }
  | startNothing {a : Agent} {fs : List Frame} (hstack : s.stack a = .start :: fs) :
      ThreadsMove s (.next a) (s.goto a fs)
  | epoch {a : Agent} {fs : List Frame} (hstack : s.stack a = .epoch :: fs) :
      ThreadsMove s (.next a)
        { s.goto a (.spawn :: fs) with clock := { s.clock with realtimeEpoch := s.steadyNow } }
  | spawn {a : Agent} {fs : List Frame} (hstack : s.stack a = .spawn :: fs)
      (hnone : s.realtimeThread = none) :
      ThreadsMove s (.next a) { (s.goto a fs).goto (.worker s.workers) [.loop] with
        realtimeThread := some s.workers
        workers := s.workers + 1 }
  | joinNothing {a : Agent} {fs : List Frame} (hstack : s.stack a = .join :: fs)
      (hnone : s.realtimeThread = none) : ThreadsMove s (.next a) (s.goto a fs)
  | join {a : Agent} {w : Nat} {fs : List Frame} (hstack : s.stack a = .join :: fs)
      (hw : s.realtimeThread = some w) (hended : s.stack (.worker w) = []) :
      ThreadsMove s (.next a) { s.goto a fs with realtimeThread := none }
  | clear {a : Agent} {tp : Nat} {fs : List Frame} (hstack : s.stack a = .clear tp :: fs) :
      ThreadsMove s (.next a) (s.clear.goto a (.resetId tp :: fs))
  | resetId {a : Agent} {tp : Nat} {fs : List Frame} (hstack : s.stack a = .resetId tp :: fs) :
      ThreadsMove s (.next a) (s.resetId.goto a (.resetTime tp :: fs))
  | resetTime {a : Agent} {tp : Nat} {fs : List Frame} (hstack : s.stack a = .resetTime tp :: fs) :
      ThreadsMove s (.next a) ((s.setVirtualNow tp).goto a (.resetStarted :: fs))
  | resetStarted {a : Agent} {fs : List Frame} (hstack : s.stack a = .resetStarted :: fs) :
      ThreadsMove s (.next a) (s.resetStarted.goto a fs)
  | loop {a : Agent} {fs : List Frame} (hstack : s.stack a = .loop :: fs)
      (hrun : s.running = true) : ThreadsMove s (.next a) (s.goto a (.isr :: .loop :: fs))
  | loopEnds {a : Agent} {fs : List Frame} (hstack : s.stack a = .loop :: fs)
      (hrun : s.running = false) : ThreadsMove s (.next a) (s.goto a fs)
  | elapse {ns : Nat} : ThreadsMove s (.elapse ns) { s with steadyNow := s.steadyNow + ns }

theorem SimThreads.call_move {c : ThreadsCall} (happ : a.inApplication (s.stack a) = true)
    (h : s.call a c = .ok s') : ThreadsMove s (.call a c) s' := by
  cases c with
  | scheduleAt tp cb arg =>
    cases cb <;> cases h
    · exact .refuse
    · exact .schedule happ
  | cancel h' =>
    cases h
    exact .cancel
  | onTimerIsr =>
    cases h
    exact .enter happ
  | advanceTo tp =>
    simp only [SimThreads.call] at h
    split at h <;> cases h
    exact .advance happ (.inl rfl)
  | advanceBy d =>
    simp only [SimThreads.call] at h
    split at h <;> cases h
    exact .advance happ (.inr ⟨d, rfl, rfl⟩)
  | start =>
    cases h
    exact .start happ
  | stop =>
    simp only [SimThreads.call] at h
    split at h
    case isTrue hrun =>
      cases h
      exact .stop happ hrun.1 hrun.2
    case isFalse hnot =>
      cases h
      exact .stopNothing hnot
  | setMode mode =>
    simp only [SimThreads.call] at h
    split at h
    case isTrue => cases h
    case isFalse hrun =>
      cases h
      exact .setMode (Bool.eq_false_iff.mpr hrun)
  | reset tp =>
    simp only [SimThreads.call] at h
    split at h
    case isTrue => cases h
    case isFalse hrun =>
      cases h
      exact .reset happ (Bool.eq_false_iff.mpr hrun)

theorem SimThreads.frameStep_move (hstack : s.stack a = f :: fs)
    (h : s.frameStep a fs f = .ok s') : ThreadsMove s (.next a) s' := by
  cases f with
  | again e =>
    cases h
    exact .again hstack
  | push e =>
    cases h
    exact .push hstack
  | isr =>
    cases h
    exact .readTime hstack
  | collect now =>
    cases h
    exact .collect hstack
  | fire now due =>
    cases due with
    | nil =>
      cases h
      exact .leave hstack
    | cons e due =>
      simp only [SimThreads.frameStep, SimThreads.fire] at h
      split at h
      case h_1 hcb =>
        cases h
        exact .skip hstack hcb
      case h_2 =>
        cases h
        exact .fire hstack
  | callback now due =>
    cases h
    exact .callbackReturns hstack
  | advanceTo tp =>
    cases h
    exact .load hstack
  | store target =>
    cases h
    exact .store hstack
  | start =>
    simp only [SimThreads.frameStep] at h
    split at h
    case isTrue hrun =>
      cases h
      exact .startRun hstack hrun.1 hrun.2
    case isFalse =>
      cases h
      exact .startNothing hstack
  | epoch =>
    cases h
    exact .epoch hstack
  | spawn =>
    simp only [SimThreads.frameStep, SimThreads.spawn] at h
    split at h
    case isTrue => cases h
    case isFalse hnone =>
      cases h
      exact .spawn hstack (by simpa using hnone)
  | join =>
    simp only [SimThreads.frameStep, SimThreads.join] at h
    split at h
    case h_1 hnone =>
      cases h
      exact .joinNothing hstack hnone
    case h_2 w hw =>
      split at h
      case isTrue => cases h
      case isFalse =>
        split at h
        case isTrue hended =>
          cases h
          exact .join hstack hw hended
        case isFalse => cases h
  | clear tp =>
    cases h
    exact .clear hstack
  | resetId tp =>
    cases h
    exact .resetId hstack
  | resetTime tp =>
    cases h
    exact .resetTime hstack
  | resetStarted =>
    cases h
    exact .resetStarted hstack
  | loop =>
    simp only [SimThreads.frameStep] at h
    split at h
    case isTrue hrun =>
      cases h
      exact .loop hstack hrun
    case isFalse hrun =>
      cases h
      exact .loopEnds hstack (Bool.eq_false_iff.mpr hrun)

/-- A step is one of the moves. -/
theorem SimThreads.step_move (h : s.step l = .ok s') : ThreadsMove s l s' := by
  cases l with
  | call a c =>
    simp only [SimThreads.step] at h
    split at h
    case isTrue happ => exact SimThreads.call_move happ h
    case isFalse => cases h
  | next a =>
    simp only [SimThreads.step] at h
    split at h
    case h_1 => cases h
    case h_2 f fs hstack => exact SimThreads.frameStep_move hstack h
  | elapse ns =>
    cases h
    exact .elapse

end Cortos.Time
