import Cortos.Time.Threads.Driver

/-!
# One thread controls the driver

Any thread may schedule, cancel and call `on_timer_isr`. `start`, `stop`, `set_mode`, `reset`
and the `advance` calls are another matter: `start` and `stop` hand over the `realtime_thread`
in several steps, and `advance_to` loads `virtual_now` and stores it later. `OwnedBy o` says
that one thread of the application makes all these calls; it may make them from a callback.

- `Proper`: below its innermost call a thread has callbacks only. The calls that control the
  driver are calls of the owner.
- `WorkerPhase`: the worker is not there, being created, running, or being joined.
- `worker_follows_running`: no `std::thread` is overwritten while it is joinable and none joins
  itself; outside `start` and `stop` a worker is alive exactly while `running` is set, and
  there is only one; a `stop` that waits for the worker does not wait forever for want of steps.
- `virtual_time_monotone`: `virtual_now` does not go back, except where `reset` stores it.

With two threads that control the driver neither holds, as the two examples show.
-/

namespace Cortos.Time

open Lib

variable {s s' : SimThreads} {l : ThreadsLabel} {a b : Agent} {f g : Frame} {fs : List Frame}
  {o n w : Nat} {hz : Nat}

/-! ## The owner -/

/-- The calls that control the driver. -/
def ThreadsCall.controls : ThreadsCall → Bool
  | .start | .stop | .setMode _ | .reset _ | .advanceTo _ | .advanceBy _ => true
  | .scheduleAt _ _ _ | .cancel _ | .onTimerIsr => false

/-- The driver is controlled by thread `o` of the application. -/
def ThreadsLabel.OwnedBy (o : Nat) : ThreadsLabel → Prop
  | .call a c => c.controls = true → a = .client o
  | _ => True

instance (o : Nat) : DecidablePred (ThreadsLabel.OwnedBy o)
  | .call a c => inferInstanceAs (Decidable (c.controls = true → a = .client o))
  | .next _ | .elapse _ => isTrue trivial

/-- A call that controls the driver, in progress. -/
def Frame.control : Frame → Bool
  | .start | .epoch | .spawn | .join | .clear _ | .resetId _ | .resetTime _ | .resetStarted
  | .advanceTo _ | .store _ => true
  | _ => false

/-! ## Calls in progress -/

/-- What is below the innermost call of a thread: callbacks, and in a worker its loop. -/
inductive Outer (a : Agent) : List Frame → Prop where
  | client {n : Nat} (ha : a = .client n) : Outer a []
  | loop {n : Nat} (ha : a = .worker n) : Outer a [.loop]
  | callback {now : Nat} {due : List SimEvent} {fs : List Frame} (h : Outer a fs) :
      Outer a (.callback now due :: fs)

/-- The calls in progress of a thread. -/
inductive Proper (o : Nat) (a : Agent) : List Frame → Prop where
  /-- A worker that is not there. -/
  | gone {n : Nat} (ha : a = .worker n) : Proper o a []
  | outer {fs : List Frame} (h : Outer a fs) : Proper o a fs
  | inner {f : Frame} {fs : List Frame} (h : Outer a fs) (hf : f ≠ .loop)
      (hc : f.control = true → a = .client o) : Proper o a (f :: fs)

namespace Proper

theorem rest (h : Proper o a (f :: fs)) (hf : f ≠ .loop) : Outer a fs := by
  cases h with
  | outer h =>
    cases h with
    | loop ha => exact absurd rfl hf
    | callback h => exact h
  | inner h => exact h

theorem owner (h : Proper o a (f :: fs)) (hf : f.control = true) : a = .client o := by
  cases h with
  | outer h => cases h <;> cases hf
  | inner h hl hc => exact hc hf

theorem loop (h : Proper o a (.loop :: fs)) : fs = [] ∧ ∃ n, a = .worker n := by
  cases h with
  | outer h =>
    cases h with
    | loop ha => exact ⟨rfl, _, ha⟩
  | inner h hf => exact absurd rfl hf

/-- A thread in code of the application may make a call. -/
theorem application (h : Proper o a fs) (happ : a.inApplication fs = true) : Outer a fs := by
  cases h with
  | gone ha =>
    subst ha
    cases happ
  | outer h => exact h
  | @inner f fs h hf hc =>
    cases f with
    | callback now due => exact .callback h
    | _ => cases a <;> cases happ

end Proper

theorem Outer.worker_ne_nil (h : Outer (.worker n) fs) : fs ≠ [] := by
  cases h with
  | client ha => cases ha
  | loop | callback => simp

theorem ThreadsMove.proper (hmove : ThreadsMove s l s') (h : ∀ a, Proper o a (s.stack a))
    (hown : l.OwnedBy o) (b : Agent) : Proper o b (s'.stack b) := by
  -- only the stack of the thread that moves changes
  have hset : ∀ {a gs}, Proper o a gs → Proper o b (Function.update s.stack a gs b) := by
    intro a gs hgs
    by_cases hb : b = a
    · subst hb
      rwa [Function.update_self]
    · rw [Function.update_of_ne hb]
      exact h b
  have hnext : ∀ {a f fs}, s.stack a = f :: fs → f ≠ .loop → Outer a fs := fun hstack hf =>
    Proper.rest (hstack ▸ h _) hf
  have howner : ∀ {a f fs}, s.stack a = f :: fs → f.control = true → a = .client o :=
    fun hstack hf => Proper.owner (hstack ▸ h _) hf
  cases hmove with
  | refuse | stopNothing | setMode | elapse => exact h b
  | cancel =>
    rw [SimThreads.cancel]
    split <;> exact h b
  | @schedule a tp arg cb happ =>
    refine hset (.inner ((h a).application happ) ?_ ?_)
    · split <;> simp
    · intro hc
      split at hc <;> cases hc
  | @enter a happ => exact hset (.inner ((h a).application happ) (by simp) (by simp [Frame.control]))
  | @advance a c tp happ hc =>
    refine hset (.inner ((h a).application happ) (by simp) fun _ => hown ?_)
    rcases hc with rfl | ⟨d, rfl, -⟩ <;> rfl
  | @start a happ | @stop a happ | @reset a tp happ =>
    exact hset (.inner ((h a).application happ) (by simp) fun _ => hown rfl)
  | again hstack | readTime hstack | collect hstack | skip hstack | fire hstack
  | callbackReturns hstack =>
    exact hset (.inner (hnext hstack (by simp)) (by simp) (by simp [Frame.control]))
  | load hstack | startRun hstack | epoch hstack | clear hstack | resetId hstack
  | resetTime hstack =>
    exact hset (.inner (hnext hstack (by simp)) (by simp) fun _ => howner hstack rfl)
  | store hstack =>
    exact hset (.inner (hnext hstack (by simp)) (by simp) (by simp [Frame.control]))
  | push hstack | leave hstack | startNothing hstack | joinNothing hstack | join hstack
  | resetStarted hstack => exact hset (.outer (hnext hstack (by simp)))
  | @spawn a fs hstack hnone =>
    show Proper o b (Function.update (Function.update s.stack a fs) (.worker s.workers) [.loop] b)
    by_cases hb : b = .worker s.workers
    · subst hb
      rw [Function.update_self]
      exact .outer (.loop rfl)
    · rw [Function.update_of_ne hb]
      exact hset (.outer (hnext hstack (by simp)))
  | @loop a fs hstack hrun =>
    obtain ⟨rfl, n, rfl⟩ := Proper.loop (hstack ▸ h a)
    exact hset (.inner (.loop rfl) (by simp) (by simp [Frame.control]))
  | @loopEnds a fs hstack hrun =>
    obtain ⟨rfl, n, rfl⟩ := Proper.loop (hstack ▸ h a)
    exact hset (.gone rfl)

/-! ## The worker -/

/-- A `start` that has set `running`, or a `stop` that has reset it. -/
def handover : List Frame → Option Frame
  | .epoch :: _ => some .epoch
  | .spawn :: _ => some .spawn
  | .join :: _ => some .join
  | _ => none

def SimThreads.handover (s : SimThreads) (o : Nat) : Option Frame :=
  Time.handover (s.stack (.client o))

theorem Outer.handover (h : Outer a fs) : Time.handover fs = none := by
  cases h <;> rfl

/-- What a step does to the worker. -/
inductive WorkerStep (o : Nat) (s s' : SimThreads) : Prop where
  | keep (hrun : s'.running = s.running) (hthread : s'.realtimeThread = s.realtimeThread)
      (hover : s'.handover o = s.handover o)
      (hlive : ∀ n, s'.stack (.worker n) = [] ↔ s.stack (.worker n) = [])
  /-- The loop of a worker ends. -/
  | ends {n : Nat} (hrun : s.running = false) (hrun' : s'.running = false)
      (hthread : s'.realtimeThread = s.realtimeThread) (hover : s'.handover o = s.handover o)
      (hlive : ∀ m, m ≠ n → (s'.stack (.worker m) = [] ↔ s.stack (.worker m) = []))
      (hended : s'.stack (.worker n) = [])
  | start (hrun : s.running = false) (hrun' : s'.running = true)
      (hthread : s'.realtimeThread = s.realtimeThread) (hover : s.handover o = none)
      (hover' : s'.handover o = some .epoch)
      (hlive : ∀ n, s'.stack (.worker n) = [] ↔ s.stack (.worker n) = [])
  | epoch (hrun : s'.running = s.running) (hthread : s'.realtimeThread = s.realtimeThread)
      (hover : s.handover o = some .epoch) (hover' : s'.handover o = some .spawn)
      (hlive : ∀ n, s'.stack (.worker n) = [] ↔ s.stack (.worker n) = [])
  | spawn {w : Nat} (hrun : s'.running = s.running) (hthread : s'.realtimeThread = some w)
      (hover : s.handover o = some .spawn) (hover' : s'.handover o = none)
      (hlive : ∀ n, n ≠ w → (s'.stack (.worker n) = [] ↔ s.stack (.worker n) = []))
      (hborn : s'.stack (.worker w) ≠ [])
  | stop (hrun : s.running = true) (hrun' : s'.running = false)
      (hthread : s'.realtimeThread = s.realtimeThread) (hover : s.handover o = none)
      (hover' : s'.handover o = some .join)
      (hlive : ∀ n, s'.stack (.worker n) = [] ↔ s.stack (.worker n) = [])
  | join (hrun : s'.running = s.running) (hover : s.handover o = some .join)
      (hover' : s'.handover o = none) (hthread' : s'.realtimeThread = none)
      (hended : ∀ w, s.realtimeThread = some w → s.stack (.worker w) = [])
      (hlive : ∀ n, s'.stack (.worker n) = [] ↔ s.stack (.worker n) = [])

section Step

variable {gs : List Frame}

theorem SimThreads.handover_goto (hstack : s'.stack = Function.update s.stack a gs)
    (hgs : a = .client o → Time.handover gs = Time.handover (s.stack a)) :
    s'.handover o = s.handover o := by
  by_cases ha : Agent.client o = a
  · subst ha
    rw [SimThreads.handover, hstack, Function.update_self]
    exact hgs rfl
  · rw [SimThreads.handover, hstack, Function.update_of_ne ha]
    rfl

theorem SimThreads.live_goto (hstack : s'.stack = Function.update s.stack a gs)
    (hgs : ∀ n, a = .worker n → (gs = [] ↔ s.stack a = [])) (n : Nat) :
    s'.stack (.worker n) = [] ↔ s.stack (.worker n) = [] := by
  by_cases ha : Agent.worker n = a
  · subst ha
    rw [hstack, Function.update_self]
    exact hgs n rfl
  · rw [hstack, Function.update_of_ne ha]

theorem SimThreads.handover_owner (hstack : s.stack (.client o) = f :: fs) :
    s.handover o = Time.handover (f :: fs) := by
  rw [SimThreads.handover, hstack]

theorem SimThreads.handover_set {x : Option Frame}
    (hstack : s'.stack = Function.update s.stack (.client o) gs) (hgs : Time.handover gs = x) :
    s'.handover o = x := by
  rw [SimThreads.handover, hstack, Function.update_self, hgs]

/-- A client moves: no worker comes or goes. -/
theorem SimThreads.live_client (hstack : s'.stack = Function.update s.stack (.client o) gs) (n : Nat) :
    s'.stack (.worker n) = [] ↔ s.stack (.worker n) = [] :=
  SimThreads.live_goto hstack (fun _ ha => by cases ha) n

/-- A call is made that is no handover. -/
theorem WorkerStep.enter (h : ∀ a, Proper o a (s.stack a))
    (happ : a.inApplication (s.stack a) = true) (hover : Time.handover (f :: s.stack a) = none)
    (hstack : s'.stack = Function.update s.stack a (f :: s.stack a))
    (hrun : s'.running = s.running) (hthread : s'.realtimeThread = s.realtimeThread) :
    WorkerStep o s s' := by
  have hout := (h a).application happ
  refine .keep hrun hthread ?_ ?_
  · exact SimThreads.handover_goto hstack fun _ => hover.trans hout.handover.symm
  · refine SimThreads.live_goto hstack fun n ha => ?_
    subst ha
    simp [hout.worker_ne_nil]

/-- The innermost call goes on, or returns. -/
theorem WorkerStep.goOn (h : ∀ a, Proper o a (s.stack a)) (htop : s.stack a = f :: fs)
    (hf : f ≠ .loop) (hover : Time.handover (f :: fs) = none)
    (hgs : gs = fs ∨ ∃ g, gs = g :: fs ∧ Time.handover (g :: fs) = none)
    (hstack : s'.stack = Function.update s.stack a gs) (hrun : s'.running = s.running)
    (hthread : s'.realtimeThread = s.realtimeThread) : WorkerStep o s s' := by
  have hout : Outer a fs := Proper.rest (htop ▸ h a) hf
  have hnone : Time.handover gs = none := by
    rcases hgs with rfl | ⟨g, rfl, hg⟩
    · exact hout.handover
    · exact hg
  refine .keep hrun hthread ?_ ?_
  · exact SimThreads.handover_goto hstack fun _ => by rw [hnone, htop, hover]
  · refine SimThreads.live_goto hstack fun n ha => ?_
    subst ha
    have hne : gs ≠ [] := by
      rcases hgs with rfl | ⟨g, rfl, -⟩
      · exact hout.worker_ne_nil
      · simp
    simp [htop, hne]

theorem ThreadsMove.worker (hmove : ThreadsMove s l s') (h : ∀ a, Proper o a (s.stack a))
    (hown : l.OwnedBy o) : WorkerStep o s s' := by
  have howner : ∀ {a f fs}, s.stack a = f :: fs → f.control = true → a = .client o :=
    fun hstack hf => Proper.owner (hstack ▸ h _) hf
  cases hmove with
  | refuse | stopNothing | setMode | elapse => exact .keep rfl rfl rfl fun _ => Iff.rfl
  | cancel =>
    rw [SimThreads.cancel]
    split <;> exact .keep rfl rfl rfl fun _ => Iff.rfl
  | schedule happ =>
    refine WorkerStep.enter h happ ?_ rfl rfl rfl
    split <;> rfl
  | enter happ | advance happ | start happ | reset happ => exact WorkerStep.enter h happ rfl rfl rfl rfl
  | @stop a happ hmode hrun =>
    obtain rfl := hown rfl
    exact .stop hrun rfl rfl ((h _).application happ).handover (SimThreads.handover_set rfl rfl)
      (SimThreads.live_client rfl)
  | push hstack | leave hstack | startNothing hstack | resetStarted hstack =>
    exact WorkerStep.goOn h hstack (by simp) rfl (.inl rfl) rfl rfl rfl
  | again hstack | readTime hstack | collect hstack | skip hstack | fire hstack
  | callbackReturns hstack | load hstack | store hstack | clear hstack | resetId hstack
  | resetTime hstack =>
    exact WorkerStep.goOn h hstack (by simp) rfl (.inr ⟨_, rfl, rfl⟩) rfl rfl rfl
  | startRun hstack hmode hrun =>
    obtain rfl := howner hstack rfl
    exact .start hrun rfl rfl (SimThreads.handover_owner hstack) (SimThreads.handover_set rfl rfl)
      (SimThreads.live_client rfl)
  | epoch hstack =>
    obtain rfl := howner hstack rfl
    exact .epoch rfl rfl (SimThreads.handover_owner hstack) (SimThreads.handover_set rfl rfl)
      (SimThreads.live_client rfl)
  | @spawn a fs hstack hnone =>
    obtain rfl := howner hstack rfl
    have hout : Outer (.client o) fs := Proper.rest (hstack ▸ h _) (by simp)
    refine .spawn rfl rfl (SimThreads.handover_owner hstack) ?_ (fun n hn => ?_) ?_
    · rw [SimThreads.handover, ← hout.handover]
      exact congrArg Time.handover (Function.update_self ..)
    · have hne : Agent.worker n ≠ .worker s.workers := fun he => hn (by cases he; rfl)
      simp [SimThreads.goto, hne]
    · simp [SimThreads.goto]
  | joinNothing hstack hnone =>
    obtain rfl := howner hstack rfl
    have hout : Outer (.client o) _ := Proper.rest (hstack ▸ h _) (by simp)
    exact .join rfl (SimThreads.handover_owner hstack) (SimThreads.handover_set rfl hout.handover) hnone
      (fun w hw => by rw [hnone] at hw; cases hw) (SimThreads.live_client rfl)
  | @join a w fs hstack hw hended =>
    obtain rfl := howner hstack rfl
    have hout : Outer (.client o) fs := Proper.rest (hstack ▸ h _) (by simp)
    refine .join rfl (SimThreads.handover_owner hstack) (SimThreads.handover_set rfl hout.handover) rfl
      (fun v hv => ?_) (SimThreads.live_client rfl)
    obtain rfl : w = v := Option.some.inj (hw.symm.trans hv)
    exact hended
  | @loop a fs hstack hrun =>
    obtain ⟨rfl, n, rfl⟩ := Proper.loop (hstack ▸ h a)
    refine .keep rfl rfl (SimThreads.handover_goto rfl fun ha => by cases ha) ?_
    exact SimThreads.live_goto rfl fun m _ => by simp [hstack]
  | @loopEnds a fs hstack hrun =>
    obtain ⟨rfl, n, rfl⟩ := Proper.loop (hstack ▸ h a)
    refine .ends (n := n) hrun hrun rfl (SimThreads.handover_goto rfl fun ha => by cases ha)
      (fun m hm => ?_) (Function.update_self ..)
    have hne : Agent.worker m ≠ .worker n := fun he => hm (by cases he; rfl)
    simp [SimThreads.goto, hne]

end Step

/-- Where the worker is between `start` and `stop`. -/
inductive WorkerPhase (o : Nat) (s : SimThreads) : Prop where
  | stopped (hover : s.handover o = none) (hrun : s.running = false)
      (hthread : s.realtimeThread = none) (hdead : ∀ n, s.stack (.worker n) = [])
  | starting (hover : s.handover o = some .epoch ∨ s.handover o = some .spawn)
      (hrun : s.running = true) (hthread : s.realtimeThread = none)
      (hdead : ∀ n, s.stack (.worker n) = [])
  | running {w : Nat} (hover : s.handover o = none) (hrun : s.running = true)
      (hthread : s.realtimeThread = some w) (hlive : s.stack (.worker w) ≠ [])
      (hdead : ∀ n, n ≠ w → s.stack (.worker n) = [])
  | stopping {w : Nat} (hover : s.handover o = some .join) (hrun : s.running = false)
      (hthread : s.realtimeThread = some w) (hdead : ∀ n, n ≠ w → s.stack (.worker n) = [])

theorem WorkerPhase.step (h : WorkerPhase o s) (hstep : WorkerStep o s s') : WorkerPhase o s' := by
  cases h with
  | stopped hover hrun hthread hdead =>
    cases hstep with
    | keep hr ht ho hlive =>
      exact .stopped (ho ▸ hover) (hr ▸ hrun) (ht ▸ hthread) fun n => (hlive n).mpr (hdead n)
    | @ends m _ hr ht ho hlive hended =>
      refine .stopped (ho ▸ hover) hr (ht ▸ hthread) fun n => ?_
      by_cases hn : n = m
      · exact hn ▸ hended
      · exact (hlive n hn).mpr (hdead n)
    | start _ hr ht ho ho' hlive =>
      exact .starting (.inl ho') hr (ht ▸ hthread) fun n => (hlive n).mpr (hdead n)
    | epoch _ _ ho | spawn _ _ ho | join _ ho => simp [hover] at ho
    | stop hr => simp [hrun] at hr
  | starting hover hrun hthread hdead =>
    cases hstep with
    | keep hr ht ho hlive =>
      exact .starting (ho ▸ hover) (hr ▸ hrun) (ht ▸ hthread) fun n => (hlive n).mpr (hdead n)
    | ends hr | start hr => simp [hrun] at hr
    | epoch hr ht ho ho' hlive =>
      exact .starting (.inr ho') (hr ▸ hrun) (ht ▸ hthread) fun n => (hlive n).mpr (hdead n)
    | spawn hr ht ho ho' hlive hborn =>
      exact .running ho' (hr ▸ hrun) ht hborn fun n hn => (hlive n hn).mpr (hdead n)
    | stop _ _ _ ho | join _ ho => rcases hover with hover | hover <;> simp [hover] at ho
  | running hover hrun hthread hlive hdead =>
    cases hstep with
    | keep hr ht ho hl =>
      exact .running (ho ▸ hover) (hr ▸ hrun) (ht ▸ hthread) (fun he => hlive ((hl _).mp he))
        fun n hn => (hl n).mpr (hdead n hn)
    | ends hr | start hr => simp [hrun] at hr
    | epoch _ _ ho | spawn _ _ ho | join _ ho => simp [hover] at ho
    | stop _ hr ht ho ho' hl =>
      exact .stopping ho' hr (ht ▸ hthread) fun n hn => (hl n).mpr (hdead n hn)
  | @stopping w hover hrun hthread hdead =>
    cases hstep with
    | keep hr ht ho hlive =>
      exact .stopping (ho ▸ hover) (hr ▸ hrun) (ht ▸ hthread) fun n hn => (hlive n).mpr (hdead n hn)
    | @ends m _ hr ht ho hlive hended =>
      refine .stopping (ho ▸ hover) hr (ht ▸ hthread) fun n hn => ?_
      by_cases hm : n = m
      · exact hm ▸ hended
      · exact (hlive n hm).mpr (hdead n hn)
    | start _ _ _ ho | epoch _ _ ho | spawn _ _ ho | stop _ _ _ ho => simp [hover] at ho
    | join hr ho ho' ht hended hlive =>
      refine .stopped ho' (hr ▸ hrun) ht fun n => (hlive n).mpr ?_
      by_cases hn : n = w
      · exact hn ▸ hended w hthread
      · exact hdead n hn

/-! ## The virtual clock -/

/-- The step is the store of `virtual_now` in `reset`. -/
def SimThreads.resetsTime (s : SimThreads) : ThreadsLabel → Bool
  | .next a =>
    match s.stack a with
    | .resetTime _ :: _ => true
    | _ => false
  | _ => false

/-- What a step does to `virtual_now`. -/
inductive ClockStep (o : Nat) (s : SimThreads) (l : ThreadsLabel) (s' : SimThreads) : Prop where
  | keep (hnow : s'.clock.ds.virtualNow = s.clock.ds.virtualNow)
      (hstore : ∀ target fs, s'.stack (.client o) = .store target :: fs →
        s.stack (.client o) = .store target :: fs ∨ s.clock.ds.virtualNow ≤ target)
  | store {target : Nat} {fs : List Frame} (htop : s.stack (.client o) = .store target :: fs)
      (hnow : s'.clock.ds.virtualNow = target)
      (hdone : ∀ target fs, s'.stack (.client o) ≠ .store target :: fs)
  | reset (hreset : s.resetsTime l = true)
      (hdone : ∀ target fs, s'.stack (.client o) ≠ .store target :: fs)

theorem Outer.ne_store {target : Nat} {gs : List Frame} (h : Outer a fs) :
    fs ≠ .store target :: gs := by
  rintro rfl
  cases h

theorem ThreadsMove.clock (hmove : ThreadsMove s l s') (h : ∀ a, Proper o a (s.stack a)) :
    ClockStep o s l s' := by
  -- a thread moves on, and has not just loaded the time
  have hset : ∀ {t : SimThreads} {a gs}, t.clock.ds.virtualNow = s.clock.ds.virtualNow →
      t.stack = Function.update s.stack a gs →
      (∀ target fs, gs = .store target :: fs → s.clock.ds.virtualNow ≤ target) →
      ClockStep o s l t := by
    intro t a gs hnow hstack hgs
    refine .keep hnow fun target fs htop => ?_
    rw [hstack] at htop
    by_cases ha : Agent.client o = a
    · subst ha
      rw [Function.update_self] at htop
      exact .inr (hgs target fs htop)
    · rw [Function.update_of_ne ha] at htop
      exact .inl htop
  have hreturn : ∀ {t : SimThreads} {a f fs}, t.clock.ds.virtualNow = s.clock.ds.virtualNow →
      s.stack a = f :: fs → f ≠ .loop → t.stack = Function.update s.stack a fs →
      ClockStep o s l t := by
    intro t a f fs hnow htop hf hstack
    have hout : Outer a fs := Proper.rest (htop ▸ h a) hf
    exact hset hnow hstack fun target gs hgs => absurd hgs hout.ne_store
  have howner : ∀ {a f fs}, s.stack a = f :: fs → f.control = true → a = .client o :=
    fun hstack hf => Proper.owner (hstack ▸ h _) hf
  cases hmove with
  | refuse | stopNothing | setMode | elapse => exact .keep rfl fun _ _ => .inl
  | cancel =>
    rw [SimThreads.cancel]
    split <;> exact .keep rfl fun _ _ => .inl
  | schedule =>
    refine hset rfl rfl fun target fs hgs => ?_
    split at hgs <;> cases hgs
  | enter | advance | start | stop | reset | again | readTime | collect | skip | fire
  | callbackReturns | startRun | epoch | loop | clear | resetId =>
    exact hset rfl rfl fun target fs hgs => by cases hgs
  | load hstack =>
    refine hset rfl rfl fun target fs hgs => ?_
    cases hgs
    exact Nat.le_max_right _ _
  | push hstack | leave hstack | startNothing hstack | joinNothing hstack | join hstack
  | resetStarted hstack =>
    exact hreturn rfl hstack (by simp) rfl
  | @store a target fs hstack =>
    obtain rfl := howner hstack rfl
    exact .store hstack rfl fun target gs => by simp [SimThreads.goto]
  | @resetTime a tp fs hstack =>
    obtain rfl := howner hstack rfl
    exact .reset (by simp [SimThreads.resetsTime, hstack]) fun target gs => by simp [SimThreads.goto]
  | @spawn a fs hstack hnone =>
    have hout : Outer a fs := Proper.rest (hstack ▸ h a) (by simp)
    refine .keep rfl fun target gs htop => ?_
    by_cases ha : Agent.client o = a
    · subst ha
      simp only [SimThreads.goto, ne_eq, reduceCtorEq, not_false_eq_true, Function.update_of_ne,
        Function.update_self] at htop
      exact absurd htop hout.ne_store
    · simp only [SimThreads.goto, ne_eq, reduceCtorEq, not_false_eq_true, Function.update_of_ne,
        ha] at htop
      exact .inl htop
  | @loopEnds a fs hstack hrun =>
    obtain ⟨rfl, n, rfl⟩ := Proper.loop (hstack ▸ h a)
    exact hset rfl rfl fun target fs hgs => by cases hgs

/-! ## The results -/

/-- What holds while one thread controls the driver. -/
structure ControlInv (o : Nat) (s : SimThreads) : Prop where
  proper : ∀ a, Proper o a (s.stack a)
  phase : WorkerPhase o s
  /-- What `advance_to` is going to store is not before the time. -/
  stored : ∀ target fs, s.stack (.client o) = .store target :: fs → s.clock.ds.virtualNow ≤ target

theorem ControlInv.initial (hz : Nat) : ControlInv o (SimThreads.initial hz) where
  proper a := by
    cases a with
    | client n => exact .outer (.client rfl)
    | worker n => exact .gone rfl
  phase := .stopped rfl rfl rfl fun _ => rfl
  stored target fs h := by cases h

theorem ControlInv.step (h : ControlInv o s) (hmove : ThreadsMove s l s') (hown : l.OwnedBy o) :
    ControlInv o s' where
  proper := hmove.proper h.proper hown
  phase := h.phase.step (hmove.worker h.proper hown)
  stored target fs htop := by
    cases hmove.clock h.proper with
    | keep hnow hstore =>
      rw [hnow]
      exact (hstore target fs htop).elim (h.stored target fs) id
    | store _ _ hdone | reset _ hdone => exact absurd htop (hdone target fs)

theorem ControlInv.reach (h : (simThreads hz).ReachVia (fun _ l => l.OwnedBy o) s) :
    ControlInv o s := by
  refine Lts.ReachVia.invariant ?_ ?_ h
  · rintro _ rfl
    exact .initial hz
  · exact fun s l s' _ hinv hown hstep => hinv.step (SimThreads.step_move hstep) hown

/-- `std::terminate` is called for the thread handle only. -/
theorem SimThreads.step_terminate (h : s.step l = .error .terminate) :
    (∃ a fs, s.stack a = .spawn :: fs ∧ s.realtimeThread ≠ none) ∨
      ∃ w fs, s.stack (.worker w) = .join :: fs := by
  cases l with
  | call a c =>
    simp only [SimThreads.step] at h
    split at h
    · cases c with
      | scheduleAt tp cb arg => cases cb <;> cases h
      | cancel | onTimerIsr | start => cases h
      | advanceTo | advanceBy | stop | setMode | reset =>
        simp only [SimThreads.call] at h
        split at h <;> cases h
    · cases h
  | elapse ns => cases h
  | next a =>
    simp only [SimThreads.step] at h
    split at h
    · cases h
    · next f fs hstack =>
      cases f with
      | spawn =>
        simp only [SimThreads.frameStep, SimThreads.spawn] at h
        split at h
        · next hsome => exact .inl ⟨a, fs, hstack, Option.isSome_iff_ne_none.mp hsome⟩
        · cases h
      | join =>
        simp only [SimThreads.frameStep, SimThreads.join] at h
        split at h
        · cases h
        · split at h
          · next w _ ha => exact .inr ⟨w, fs, ha ▸ hstack⟩
          · split at h <;> cases h
      | start =>
        simp only [SimThreads.frameStep] at h
        split at h <;> cases h
      | _ => cases h

/-- Only `start` and `stop` wait or fail. -/
theorem SimThreads.frameStep_ok (s : SimThreads) (a : Agent) (fs : List Frame)
    (hf : f.control = false) : ∃ s', s.frameStep a fs f = .ok s' := by
  cases f with
  | start | spawn | join => cases hf
  | _ => exact ⟨_, rfl⟩

/-- A `stop` that waits for worker `w`: the worker can go on, or `stop` returns. -/
theorem SimThreads.join_step (h : ∀ a, Proper o a (s.stack a)) (hjoin : s.handover o = some .join)
    (hw : s.realtimeThread = some w) : (∃ s', s.step (.next (.client o)) = .ok s') ∨
      ∃ s', s.step (.next (.worker w)) = .ok s' := by
  cases hstack : s.stack (.worker w) with
  | nil =>
    obtain ⟨gs, htop⟩ : ∃ gs, s.stack (.client o) = .join :: gs := by
      rw [SimThreads.handover, Time.handover.eq_def] at hjoin
      split at hjoin
      · cases hjoin
      · cases hjoin
      · next gs htop => exact ⟨gs, htop⟩
      · cases hjoin
    exact .inl ⟨_, by simp only [SimThreads.step, htop, SimThreads.frameStep, SimThreads.join, hw,
      reduceCtorEq, if_false, hstack, if_true]; rfl⟩
  | cons f fs =>
    have hf : f.control = false := Bool.eq_false_iff.mpr fun hc => by
      cases Proper.owner (hstack ▸ h _) hc
    obtain ⟨s', hs'⟩ := s.frameStep_ok (.worker w) fs hf
    exact .inr ⟨s', by simp only [SimThreads.step, hstack, hs']⟩

/-- **The worker follows `running`**, if one thread controls the driver. No `std::thread` is
overwritten while it is joinable, and none joins itself. There is at most one worker, and
outside `start` and `stop` it is alive exactly while `running` is set: once `stop` has returned,
no callback runs on it any more. While `stop` waits for the worker, it or the worker can go
on. -/
theorem worker_follows_running (h : (simThreads hz).ReachVia (fun _ l => l.OwnedBy o) s) :
    (∀ l, s.step l ≠ .error .terminate) ∧
      (∀ m n, s.stack (.worker m) ≠ [] → s.stack (.worker n) ≠ [] → m = n) ∧
      (s.handover o = none → (s.running = true ↔ ∃ n, s.stack (.worker n) ≠ [])) ∧
      (s.handover o = some .join → (∃ s', s.step (.next (.client o)) = .ok s') ∨
        ∃ w s', s.realtimeThread = some w ∧ s.step (.next (.worker w)) = .ok s') := by
  obtain ⟨hproper, hphase, -⟩ := ControlInv.reach h
  refine ⟨fun l hterm => ?_, fun m n hm hn => ?_, fun hover => ?_, fun hjoin => ?_⟩
  · rcases SimThreads.step_terminate hterm with ⟨a, fs, hstack, hsome⟩ | ⟨w, fs, hstack⟩
    · obtain rfl := Proper.owner (hstack ▸ hproper a) rfl
      have hspawn := SimThreads.handover_owner hstack
      cases hphase with
      | stopped hover | running hover | stopping hover =>
        rw [hover] at hspawn
        cases hspawn
      | starting _ _ hthread => exact hsome hthread
    · have howner := Proper.owner (hstack ▸ hproper _) rfl
      cases howner
  · cases hphase with
    | stopped _ _ _ hdead | starting _ _ _ hdead => exact absurd (hdead m) hm
    | @running w _ _ _ _ hdead | @stopping w _ _ _ hdead =>
      have hmw : m = w := Classical.not_not.mp fun hne => hm (hdead m hne)
      have hnw : n = w := Classical.not_not.mp fun hne => hn (hdead n hne)
      rw [hmw, hnw]
  · cases hphase with
    | stopped _ hrun _ hdead => simp [hrun, hdead]
    | starting hpending => simp [hover] at hpending
    | @running w _ hrun _ hlive => exact iff_of_true hrun ⟨w, hlive⟩
    | stopping hpending => simp [hover] at hpending
  · cases hphase with
    | stopped hover | running hover => simp [hover] at hjoin
    | starting hover => simp [hjoin] at hover
    | @stopping w _ _ hthread _ =>
      rcases SimThreads.join_step hproper hjoin hthread with hok | ⟨s', hs'⟩
      · exact .inl hok
      · exact .inr ⟨w, s', hthread, hs'⟩

/-- The owner starts the worker and stops it while it is in `on_timer_isr`. -/
def stopWhileFiring : (simThreads 1000).Run 7 :=
  .ofLabels (SimThreads.initial 1000)
    [.call (.client 0) (.setMode .realTime), .call (.client 0) .start, .next (.client 0),
      .next (.client 0), .next (.client 0), .next (.worker 0), .call (.client 0) .stop]
    (.elapse 0) (by exact simThreads_init_1000) (by decide +kernel)

theorem worker_follows_running_stop :
    (stopWhileFiring.state 7).handover 0 = some .join ∧
      (stopWhileFiring.state 7).stack (.worker 0) = [.isr, .loop] ∧
      ((∃ s', (stopWhileFiring.state 7).step (.next (.client 0)) = .ok s') ∨
        ∃ w s', (stopWhileFiring.state 7).realtimeThread = some w ∧
          (stopWhileFiring.state 7).step (.next (.worker w)) = .ok s') :=
  ⟨by decide +kernel, by decide +kernel,
    (worker_follows_running (o := 0) (stopWhileFiring.reachVia
      (C := fun _ l => l.OwnedBy 0) (by decide +kernel) 7 (Nat.le_refl 7))).2.2.2
      (by decide +kernel)⟩

/-- The step calls `std::terminate`. -/
def SimThreads.terminates (s : SimThreads) (l : ThreadsLabel) : Bool :=
  match s.step l with
  | .error .terminate => true
  | _ => false

-- Another thread calls `stop` while `start` has set `running` and not created the thread yet.
-- It finds nothing to join, so the worker is still joinable at the next `start`.
example : (simThreads 1000).runsTo (fun _ _ => True) (fun s => s.terminates (.next (.client 0)) = true)
    (SimThreads.initial 1000)
    [.call (.client 0) (.setMode .realTime), .call (.client 0) .start, .next (.client 0),
      .call (.client 1) .stop, .next (.client 1), .next (.client 0), .next (.client 0),
      .call (.client 0) .start, .next (.client 0), .next (.client 0)] = true := by
  decide +kernel

theorem ControlInv.virtualNow_le (h : ControlInv o s) (hmove : ThreadsMove s l s')
    (hreset : s.resetsTime l = false) :
    s.clock.ds.virtualNow ≤ s'.clock.ds.virtualNow := by
  cases hmove.clock h.proper with
  | keep hnow => exact Nat.le_of_eq hnow.symm
  | store htop hnow =>
    rw [hnow]
    exact h.stored _ _ htop
  | reset hstore =>
    rw [hreset] at hstore
    cases hstore

/-- **Virtual time does not go back**, if one thread controls the driver: from one moment to a
later one, unless a `reset` stores it in between. -/
theorem virtual_time_monotone {N : Nat} (r : (simThreads hz).Run N)
    (hown : ∀ i < N, (r.label i).OwnedBy o) {i j : Nat} (hij : i ≤ j) (hj : j ≤ N)
    (hreset : ∀ k, i ≤ k → k < j → (r.state k).resetsTime (r.label k) = false) :
    (r.state i).clock.ds.virtualNow ≤ (r.state j).clock.ds.virtualNow := by
  induction j, hij using Nat.le_induction with
  | base => exact Nat.le_refl _
  | succ j hij ih =>
    have hinv := ControlInv.reach (r.reachVia (C := fun _ l => l.OwnedBy o) hown j (by omega))
    have hlast := hinv.virtualNow_le (SimThreads.step_move (r.next j (by omega)))
      (hreset j hij (Nat.lt_succ_self j))
    exact Nat.le_trans (ih (by omega) fun k hk hkj => hreset k hk (by omega)) hlast

/-- The owner advances the time, resets it to an earlier one and advances it again; a callback
then advances it further. -/
def advanceAfterReset : (simThreads 1000).Run 22 :=
  .ofLabels (SimThreads.initial 1000)
    [.call (.client 0) (.advanceTo 9), .next (.client 0), .next (.client 0), .next (.client 0),
      .next (.client 0), .next (.client 0), .call (.client 0) (.reset 2), .next (.client 0),
      .next (.client 0), .next (.client 0), .next (.client 0),
      .call (.client 0) (.scheduleAt 5 (some 70) 0), .next (.client 0),
      .call (.client 0) (.advanceTo 5), .next (.client 0), .next (.client 0), .next (.client 0),
      .next (.client 0), .next (.client 0), .call (.client 0) (.advanceBy 3), .next (.client 0),
      .next (.client 0)]
    (.elapse 0) (by exact simThreads_init_1000) (by decide +kernel)

theorem advanceAfterReset_time : ∀ k < 22, 10 ≤ k →
    (advanceAfterReset.state k).resetsTime (advanceAfterReset.label k) = false := by
  decide +kernel

theorem virtual_time_monotone_callback :
    (advanceAfterReset.state 9).clock.ds.virtualNow = 9 ∧
      (advanceAfterReset.state 10).clock.ds.virtualNow = 2 ∧
      (advanceAfterReset.state 22).clock.ds.virtualNow = 8 ∧
      (advanceAfterReset.state 10).clock.ds.virtualNow ≤
        (advanceAfterReset.state 22).clock.ds.virtualNow :=
  ⟨by decide +kernel, by decide +kernel, by decide +kernel,
    virtual_time_monotone (o := 0) advanceAfterReset (by decide +kernel) (by decide)
      (Nat.le_refl 22) fun k hk hkN => advanceAfterReset_time k hkN hk⟩

-- Two threads advance: the one that has loaded the earlier time stores last.
example : (simThreads 1000).runsTo (fun _ _ => True) (fun s => s.clock.ds.virtualNow = 10)
    (SimThreads.initial 1000)
    [.call (.client 0) (.advanceTo 10), .next (.client 0), .call (.client 1) (.advanceTo 20),
      .next (.client 1), .next (.client 1), .next (.client 0)] = true := by
  decide +kernel

end Cortos.Time
