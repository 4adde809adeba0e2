import Cortos.Time.HandleIds
import Cortos.Time.Rearm

/-!
# The tickless driver stands for the periodic one

A port with a periodic timer interrupts at every tick. With the tickless driver it
interrupts only when the armed deadline has been reached. This module compares the two
drivers in one world: the same calls, the same clock, the same callbacks with the same calls
in them, and a port that looks at its timer at the same times.

- `World` is what happens outside the drivers; `Driver.perform` is its effect on a driver, up
  to the next point at which the world has a say: a callback has been started, or no
  `on_timer_isr` is running.
- `Twin`: the drivers differ in the armed deadline and in the interrupts on record.
- An interrupt that the tickless driver does not get would have found nothing due, because
  the timer is never armed late (`Driver.serve_idle_scan`).
- `tickless_agrees`: what clients see is the same in both drivers, and the tickless one is
  interrupted at most as often.

The port may look at its timer at any times. That it does so in time is not a matter of the
drivers.
-/

namespace Cortos.Time

open Lib

variable {kind : Kind} {p p' t t' s s' : Driver} {l : Label}

/-! ## The world -/

/-- What happens outside the drivers. -/
inductive World where
  | scheduleAt (tp : Nat) (cb : Option Callback) (arg : Nat)
  | cancel (h : Handle)
  | start
  | stop
  /-- The counter of the port advances. -/
  | advance (ticks : Nat)
  /-- The port looks at its timer. -/
  | poll
  /-- The running callback returns. -/
  | callbackReturns
  deriving DecidableEq, Repr

/-- Deadlines are of type `uint64_t`. -/
def World.InRange : World → Prop
  | .scheduleAt tp _ _ => tp ≤ u64Max
  | _ => True

instance : DecidablePred World.InRange
  | .scheduleAt tp _ _ => inferInstanceAs (Decidable (tp ≤ u64Max))
  | .cancel _ | .start | .stop | .advance _ | .poll | .callbackReturns => .isTrue trivial

/-- The port interrupts: a periodic timer whenever it is enabled, a one-shot timer when its
deadline has been reached. -/
def Port.interrupts (port : Port) : Kind → Bool
  | .periodic => port.irqEnabled
  | .tickless => port.irqEnabled && decide (port.armed ≤ port.now)

namespace Driver

/-- `fire_due_isr` goes on until it starts a callback or returns. -/
def serve (kind : Kind) : Nat → Driver → Except DriverFault Driver
  | 0, _ => .error .disabled
  | n + 1, s =>
    if s.isr.mayCall then .ok s else (s.step kind .scan).bind (serve kind n)

/-- A scan of every slot, the return, and the look that finds that it has returned. -/
def serveSteps : Nat := maxScheduledCallbacks + 2

/-- The effect of the world on a driver. Interrupts are masked while an `on_timer_isr` runs. -/
def perform (kind : Kind) (s : Driver) : World → Except DriverFault Driver
  | .scheduleAt tp cb arg => s.step kind (.scheduleAt tp cb arg)
  | .cancel h => s.step kind (.cancel h)
  | .start => s.step kind .start
  | .stop => s.step kind .stop
  | .advance ticks => s.step kind (.advance ticks)
  | .poll =>
    if s.isr = .idle ∧ s.port.interrupts kind = true then
      (s.step kind .interrupt).bind (serve kind serveSteps)
    else .ok s
  | .callbackReturns =>
    if s.isr = .idle then .ok s
    else (s.step kind .callbackReturns).bind (serve kind serveSteps)

end Driver

/-! ## Twins -/

/-- What clients see of a run: which handles and results they have got, and which callbacks
have been started when. -/
def visible (log : List Event) : List Event := log.filter fun e => !e.isIsr

/-- `on_timer_isr` is entered. -/
def Event.isEntry : Event → Bool
  | .entered _ => true
  | _ => false

/-- The number of interrupts on record. -/
def entries (log : List Event) : Nat := log.countP Event.isEntry

/-- The tickless driver that corresponds to periodic driver `p`. -/
def Driver.twin (p : Driver) (initialised : Bool) (armed : Nat) (log : List Event) : Driver :=
  { p with
    ds := { p.ds with initialised := initialised }
    port := { p.port with armed := armed }
    log := log }

theorem DriverState.rearm_tickless (ds : DriverState) (port : Port) :
    ∃ armed, ds.rearm .tickless port = { port with armed := armed } := by
  show ∃ armed, (if ds.earliest = u64Max then port.disarm else port.arm ds.earliest) = _
  split
  · exact ⟨_, rfl⟩
  · rw [Port.arm]
    split
    · exact ⟨_, rfl⟩
    · exact ⟨port.armed, rfl⟩

section Twin

variable (b : Bool) (armed : Nat) (log : List Event)

theorem Driver.scheduleAt_twin (tp : Nat) (cb : Option Callback) (arg : Nat) :
    ∃ armed' e, (p.twin b armed log).scheduleAt .tickless tp cb arg =
        (p.scheduleAt .periodic tp cb arg).twin b armed' (log ++ [e]) ∧
      (p.scheduleAt .periodic tp cb arg).log = p.log ++ [e] := by
  cases cb with
  | none => exact ⟨armed, _, rfl, rfl⟩
  | some cb =>
    have hslots : (p.twin b armed log).ds.firstSlot (fun slot => slot.id = 0) =
      p.ds.firstSlot fun slot => slot.id = 0 := rfl
    cases hfree : p.ds.firstSlot fun slot => slot.id = 0 with
    | none =>
      refine ⟨armed, .scheduled p.calls {} tp, ?_, ?_⟩
      · simp only [Driver.scheduleAt, DriverState.scheduleAt, hslots, hfree]
        rfl
      · simp only [Driver.scheduleAt, DriverState.scheduleAt, hfree]
    | some i =>
      obtain ⟨armed', harmed⟩ := ((p.twin b armed log).ds.fill i p.calls tp cb arg).rearm_tickless
        (p.twin b armed log).port
      refine ⟨armed', .scheduled p.calls ⟨(takeId p.ds.nextId).1⟩ tp, ?_, ?_⟩
      · simp only [Driver.scheduleAt, DriverState.scheduleAt, hslots, hfree]
        rw [show (p.twin b armed log).calls = p.calls from rfl, harmed]
        rfl
      · simp only [Driver.scheduleAt, DriverState.scheduleAt, hfree]

theorem Driver.cancel_twin (h : Handle) :
    ∃ armed' e, (p.twin b armed log).cancel .tickless h =
        (p.cancel .periodic h).twin b armed' (log ++ [e]) ∧
      (p.cancel .periodic h).log = p.log ++ [e] := by
  by_cases hid : h.id = 0
  · refine ⟨armed, .cancelled h false, ?_, ?_⟩
    · simp only [Driver.cancel, DriverState.cancel, if_pos hid]
      rfl
    · simp only [Driver.cancel, DriverState.cancel, if_pos hid]
  · have hslots : (p.twin b armed log).ds.find h = p.ds.find h := rfl
    cases hfind : p.ds.find h with
    | none =>
      refine ⟨armed, .cancelled h false, ?_, ?_⟩
      · simp only [Driver.cancel, DriverState.cancel, if_neg hid, hslots, hfind]
        rfl
      · simp only [Driver.cancel, DriverState.cancel, if_neg hid, hfind]
    | some i =>
      obtain ⟨armed', harmed⟩ := ((p.twin b armed log).ds.setSlot i {}).rearm_tickless
        (p.twin b armed log).port
      refine ⟨armed', .cancelled h true, ?_, ?_⟩
      · simp only [Driver.cancel, DriverState.cancel, if_neg hid, hslots, hfind]
        rw [harmed]
        rfl
      · simp only [Driver.cancel, DriverState.cancel, if_neg hid, hfind]

theorem Driver.start_twin (hs : p.start .periodic = .ok p') :
    ∃ armed', (p.twin b armed log).start .tickless = .ok (p'.twin b armed' log) ∧
      p'.log = p.log := by
  rw [Driver.start] at hs
  split at hs
  · next hstarted =>
    cases hs
    exact ⟨armed, if_pos hstarted, rfl⟩
  · next hstopped =>
    split at hs
    · cases hs
    · cases hs
      obtain ⟨armed', harmed⟩ := (p.twin b armed log).ds.rearm_tickless (p.twin b armed log).port
      refine ⟨armed', ?_, rfl⟩
      have hstopped' : ¬ (p.twin b armed log).ds.started = true := hstopped
      rw [Driver.start, if_neg hstopped', if_neg (by simp), harmed]
      rfl

theorem Driver.stop_twin :
    ∃ armed', (p.twin b armed log).stop .tickless = (p.stop .periodic).twin b armed' log ∧
      (p.stop .periodic).log = p.log := by
  by_cases hstarted : p.ds.started = true
  · have hstarted' : (p.twin b armed log).ds.started = true := hstarted
    refine ⟨u64Max, ?_, ?_⟩
    · rw [Driver.stop, Driver.stop, if_pos hstarted, if_pos hstarted']
      rfl
    · rw [Driver.stop, if_pos hstarted]
  · have hstarted' : ¬ (p.twin b armed log).ds.started = true := hstarted
    refine ⟨armed, ?_, ?_⟩
    · rw [Driver.stop, Driver.stop, if_neg hstarted, if_neg hstarted']
    · rw [Driver.stop, if_neg hstarted]

theorem Driver.scan_twin (hs : p.step .periodic .scan = .ok p') :
    ∃ armed' es, (p.twin b armed log).step .tickless .scan = .ok (p'.twin b armed' (log ++ es)) ∧
      p'.log = p.log ++ es := by
  have hisr' : (p.twin b armed log).isr = p.isr := rfl
  cases Driver.step_move hs with
  | @skip now since i hisr hnot =>
    refine ⟨armed, [], ?_, (List.append_nil _).symm⟩
    have hnot' : ¬ (((p.twin b armed log).ds.slots i).id ≠ 0 ∧
        ((p.twin b armed log).ds.slots i).when ≤ now) :=
      fun hdue => Nat.not_le.mpr (hnot hdue.1) hdue.2
    simp only [Driver.step, hisr', hisr, dif_pos i.isLt, Driver.visit, if_neg hnot', List.append_nil]
    rfl
  | @fire now since i cb hisr hid hdue hcb =>
    refine ⟨armed, [.invoked (p.ds.slots i).ticket cb (p.ds.slots i).arg now], ?_, rfl⟩
    have hdue' : ((p.twin b armed log).ds.slots i).id ≠ 0 ∧
        ((p.twin b armed log).ds.slots i).when ≤ now := ⟨hid, hdue⟩
    have hcb' : ((p.twin b armed log).ds.slots i).cb = some cb := hcb
    simp only [Driver.step, hisr', hisr, dif_pos i.isLt, Driver.visit, if_pos hdue', hcb']
    rfl
  | @leave now since i hisr hi =>
    obtain ⟨armed', harmed⟩ := (p.twin b armed log).ds.rearm_tickless (p.twin b armed log).port
    refine ⟨armed', [.returned], ?_, rfl⟩
    simp only [Driver.step, hisr', hisr, dif_neg (Nat.not_lt.mpr hi), harmed]
    rfl
  | stay hl => rcases hl with hl | hl <;> cases hl

/-- A step of the periodic driver, and that of its twin. -/
theorem Driver.step_twin (hs : p.step .periodic l = .ok p') :
    ∃ armed' es, (p.twin b armed log).step .tickless l = .ok (p'.twin b armed' (log ++ es)) ∧
      p'.log = p.log ++ es := by
  cases l with
  | scheduleAt tp cb arg =>
    simp only [Driver.step] at hs
    split at hs
    · next hcall =>
      cases hs
      obtain ⟨armed', e, htwin, hlog⟩ := Driver.scheduleAt_twin (p := p) b armed log tp cb arg
      refine ⟨armed', [e], ?_, hlog⟩
      rw [← htwin]
      exact Driver.step_scheduleAt hcall.1 hcall.2
    · cases hs
  | cancel h =>
    simp only [Driver.step] at hs
    split at hs
    · next hcall =>
      cases hs
      obtain ⟨armed', e, htwin, hlog⟩ := Driver.cancel_twin (p := p) b armed log h
      refine ⟨armed', [e], ?_, hlog⟩
      rw [← htwin]
      exact Driver.step_cancel hcall
    · cases hs
  | interrupt =>
    simp only [Driver.step] at hs
    split at hs
    · next hidle =>
      cases hs
      exact ⟨armed, [.entered p.port.now], if_pos hidle, rfl⟩
    · cases hs
  | scan => exact Driver.scan_twin b armed log hs
  | callbackReturns =>
    cases Driver.step_move hs with
    | callbackReturns hisr =>
      have hisr' : (p.twin b armed log).isr = p.isr := rfl
      refine ⟨armed, [], ?_, (List.append_nil _).symm⟩
      simp only [Driver.step, hisr', hisr, List.append_nil]
      rfl
    | stay hl => rcases hl with hl | hl <;> cases hl
  | advance ticks =>
    cases hs
    exact ⟨armed, [], by simp [Driver.step, Driver.twin], (List.append_nil _).symm⟩
  | start =>
    simp only [Driver.step] at hs
    split at hs
    · next hcall =>
      obtain ⟨armed', htwin, hlog⟩ := Driver.start_twin b armed log hs
      refine ⟨armed', [], ?_, by rw [hlog, List.append_nil]⟩
      rw [List.append_nil, ← htwin]
      exact if_pos hcall
    · cases hs
  | stop =>
    simp only [Driver.step] at hs
    split at hs
    · next hcall =>
      cases hs
      obtain ⟨armed', htwin, hlog⟩ := Driver.stop_twin (p := p) b armed log
      refine ⟨armed', [], ?_, by rw [hlog, List.append_nil]⟩
      rw [List.append_nil, ← htwin]
      exact if_pos hcall
    · cases hs

end Twin

/-- Periodic driver `p` and tickless driver `t` agree. -/
structure Agree (p t : Driver) : Prop where
  twin : ∃ b armed log, t = p.twin b armed log
  log : visible t.log = visible p.log
  entries : entries t.log ≤ entries p.log
  paired : p.ds.Paired
  frequency : 0 < p.ds.frequencyHz
  armed : t.ds.started = true → ArmedInTime t
  enabled : p.port.irqEnabled = true → p.ds.started = true
  passed : p.isr.passed ≤ maxScheduledCallbacks

theorem Agree.isr (h : Agree p t) : t.isr = p.isr := by
  obtain ⟨b, armed, log, rfl⟩ := h.twin
  rfl

theorem Agree.initial {frequencyHz : Nat} (hfreq : 0 < frequencyHz) (now : Nat) :
    Agree (Driver.initial .periodic frequencyHz now) (Driver.initial .tickless frequencyHz now) where
  twin := ⟨false, u64Max, [], rfl⟩
  log := rfl
  entries := Nat.le_refl _
  paired := fun _ => iff_of_true rfl rfl
  frequency := hfreq
  armed := fun hstarted => by cases hstarted
  enabled := fun henabled => by cases henabled
  passed := Nat.zero_le _

/-- The interrupt is enabled while the driver is started; the frequency stays. -/
theorem Move.enabled (hmove : Move .periodic p l p')
    (h : p.port.irqEnabled = true → p.ds.started = true) :
    (p'.port.irqEnabled = true → p'.ds.started = true) ∧ p'.ds.frequencyHz = p.ds.frequencyHz := by
  cases hmove with
  | stop hcall hstarted =>
    rw [Driver.stop, if_pos hstarted]
    exact ⟨fun henabled => absurd henabled (by simp), rfl⟩
  | start => exact ⟨fun _ => rfl, rfl⟩
  | _ => exact ⟨h, rfl⟩

theorem Move.passed (hmove : Move .periodic p l p') (h : p.isr.passed ≤ maxScheduledCallbacks) :
    p'.isr.passed ≤ maxScheduledCallbacks := by
  cases hmove with
  | skip hisr | fire hisr => exact Fin.isLt _
  | callbackReturns hisr =>
    rw [hisr] at h
    exact h
  | stop hcall hstarted =>
    rw [Driver.stop, if_pos hstarted]
    exact h
  | enter | leave => exact Nat.zero_le _
  | _ => exact h

/-- **Lockstep.** A step of the periodic driver is one of the tickless driver. -/
theorem Agree.step (h : Agree p t) (hs : p.step .periodic l = .ok p') :
    ∃ t', t.step .tickless l = .ok t' ∧ Agree p' t' := by
  obtain ⟨b, armed, log, rfl⟩ := h.twin
  obtain ⟨armed', es, hstep, hlog⟩ := Driver.step_twin b armed log hs
  obtain ⟨henabled, hfreq⟩ := (Driver.step_move hs).enabled h.enabled
  refine ⟨_, hstep, ⟨b, armed', log ++ es, rfl⟩, ?_, ?_, (Driver.book_step h.paired hs).1,
    hfreq ▸ h.frequency, ArmedInTime.move (Driver.step_move hstep) h.armed, henabled,
    (Driver.step_move hs).passed h.passed⟩
  · have hsame : visible log = visible p.log := h.log
    show visible (log ++ es) = visible p'.log
    rw [hlog, visible, visible, List.filter_append, List.filter_append]
    exact congrArg (· ++ _) hsame
  · have hle : Time.entries log ≤ Time.entries p.log := h.entries
    show Time.entries (log ++ es) ≤ Time.entries p'.log
    rw [hlog, Time.entries, Time.entries, List.countP_append, List.countP_append]
    exact Nat.add_le_add_right hle _

/-! ## The running interrupt -/

theorem Driver.serve_settled {n : Nat} (hcall : s.isr.mayCall = true) :
    s.serve kind (n + 1) = .ok s := if_pos hcall

theorem Driver.serve_scanning {n now since i : Nat} (hisr : s.isr = .scanning now since i)
    (hs : s.step kind .scan = .ok s') : s.serve kind (n + 1) = s'.serve kind n := by
  rw [Driver.serve, hisr, if_neg (by simp [Isr.mayCall]), hs]
  rfl

theorem Agree.serve {n : Nat} (h : Agree p t) (hs : p.serve .periodic n = .ok p') :
    ∃ t', t.serve .tickless n = .ok t' ∧ Agree p' t' := by
  induction n generalizing p t with
  | zero => cases hs
  | succ n ih =>
    rw [Driver.serve] at hs ⊢
    rw [h.isr]
    split at hs
    · next hcall =>
      cases hs
      exact ⟨t, if_pos hcall, h⟩
    · next hcall =>
      cases hscan : p.step .periodic .scan with
      | error e =>
        rw [hscan] at hs
        cases hs
      | ok p₁ =>
        rw [hscan] at hs
        obtain ⟨t₁, ht₁, h₁⟩ := h.step hscan
        obtain ⟨t', ht', h'⟩ := ih h₁ hs
        refine ⟨t', ?_, h'⟩
        rw [if_neg hcall, ht₁]
        exact ht'

/-- A step of `fire_due_isr`. -/
theorem Driver.step_scan (kind : Kind) (hpaired : s.ds.Paired) {now since i : Nat}
    (hisr : s.isr = .scanning now since i) :
    ∃ s', s.step kind .scan = .ok s' ∧
      (s'.isr.mayCall = true ∨ s'.isr = .scanning now since (i + 1) ∧ i < maxScheduledCallbacks) := by
  by_cases hi : i < maxScheduledCallbacks
  · by_cases hdue : (s.ds.slots ⟨i, hi⟩).id ≠ 0 ∧ (s.ds.slots ⟨i, hi⟩).when ≤ now
    · obtain ⟨cb, hcb⟩ : ∃ cb, (s.ds.slots ⟨i, hi⟩).cb = some cb :=
        Option.ne_none_iff_exists'.mp ((hpaired _).not.mpr hdue.1)
      have hstep : s.step kind .scan = .ok { s with
          ds := s.ds.setSlot ⟨i, hi⟩ {}
          isr := .callback now since i
          log := s.log ++ [.invoked (s.ds.slots ⟨i, hi⟩).ticket cb (s.ds.slots ⟨i, hi⟩).arg now] } := by
        simp only [Driver.step, hisr, dif_pos hi, Driver.visit, if_pos hdue, hcb]
      exact ⟨_, hstep, .inl rfl⟩
    · have hstep : s.step kind .scan = .ok { s with isr := .scanning now since (i + 1) } := by
        simp only [Driver.step, hisr, dif_pos hi, Driver.visit, if_neg hdue]
      exact ⟨_, hstep, .inr ⟨rfl, hi⟩⟩
  · have hstep : s.step kind .scan = .ok { s with
        port := s.ds.rearm kind s.port
        isr := .idle
        log := s.log ++ [.returned] } := by
      simp only [Driver.step, hisr, dif_neg hi]
    exact ⟨_, hstep, .inl rfl⟩

/-- `fire_due_isr` starts a callback or returns. -/
theorem Driver.serve_ok (kind : Kind) {n now since i : Nat} (hpaired : s.ds.Paired)
    (hisr : s.isr = .scanning now since i) (hi : i ≤ maxScheduledCallbacks)
    (hn : maxScheduledCallbacks + 2 ≤ n + i) :
    ∃ s', s.serve kind n = .ok s' ∧ s'.isr.mayCall = true := by
  induction n generalizing s i with
  | zero => omega
  | succ n ih =>
    obtain ⟨s₁, hstep, hnext⟩ := Driver.step_scan kind hpaired hisr
    rw [Driver.serve_scanning hisr hstep]
    rcases hnext with hcall | ⟨hisr₁, hlt⟩
    · obtain ⟨k, rfl⟩ : ∃ k, n = k + 1 := ⟨n - 1, by omega⟩
      exact ⟨s₁, Driver.serve_settled hcall, hcall⟩
    · exact ih (Driver.book_step hpaired hstep).1 hisr₁ hlt (by omega)

/-- An interrupt that finds nothing due. -/
theorem Driver.serve_idle_scan {n now since i : Nat} (hisr : s.isr = .scanning now since i)
    (hnot : ∀ j, (s.ds.slots j).id ≠ 0 → now < (s.ds.slots j).when)
    (hi : i ≤ maxScheduledCallbacks) (hn : maxScheduledCallbacks + 2 ≤ n + i) :
    s.serve .periodic n = .ok { s with isr := .idle, log := s.log ++ [.returned] } := by
  induction n generalizing s i with
  | zero => omega
  | succ n ih =>
    by_cases hlt : i < maxScheduledCallbacks
    · have hdue : ¬ ((s.ds.slots ⟨i, hlt⟩).id ≠ 0 ∧ (s.ds.slots ⟨i, hlt⟩).when ≤ now) :=
        fun hdue => Nat.not_le.mpr (hnot _ hdue.1) hdue.2
      have hstep : s.step .periodic .scan = .ok { s with isr := .scanning now since (i + 1) } := by
        simp only [Driver.step, hisr, dif_pos hlt, Driver.visit, if_neg hdue]
      rw [Driver.serve_scanning hisr hstep]
      exact ih (s := { s with isr := .scanning now since (i + 1) }) rfl hnot hlt (by omega)
    · have hstep : s.step .periodic .scan =
          .ok { s with isr := .idle, log := s.log ++ [.returned] } := by
        simp only [Driver.step, hisr, dif_neg hlt]
        rfl
      obtain ⟨k, rfl⟩ : ∃ k, n = k + 1 := ⟨n - 1, by omega⟩
      rw [Driver.serve_scanning hisr hstep]
      exact Driver.serve_settled rfl

/-! ## What the world does -/

theorem Driver.ok_bind_serve {n : Nat} :
    (Except.ok s : Except DriverFault Driver).bind (Driver.serve kind n) = s.serve kind n := rfl

/-- The two drivers serve an interrupt. -/
theorem Agree.served (h : Agree p t) {now since i : Nat} (hisr : p.isr = .scanning now since i) :
    ∃ p' t', p.serve .periodic Driver.serveSteps = .ok p' ∧
      t.serve .tickless Driver.serveSteps = .ok t' ∧ Agree p' t' ∧ p'.isr.mayCall = true := by
  have hi : i ≤ maxScheduledCallbacks := by
    have hpassed := h.passed
    rwa [hisr] at hpassed
  obtain ⟨p', hp', hcall⟩ := Driver.serve_ok .periodic (n := Driver.serveSteps) h.paired hisr hi
    (Nat.le_add_right _ _)
  obtain ⟨t', ht', h'⟩ := h.serve hp'
  exact ⟨p', t', hp', ht', h', hcall⟩

/-- An interrupt that finds nothing due changes nothing that clients see. -/
theorem Agree.silent (h : Agree p t) (hidle : p.isr = .idle) (now : Nat) :
    Agree { p with isr := .idle, log := p.log ++ [.entered now] ++ [.returned] } t := by
  obtain ⟨b, armed, log, htwin⟩ := h.twin
  refine ⟨⟨b, armed, log, ?_⟩, ?_, ?_, h.paired, h.frequency, h.armed, h.enabled, Nat.zero_le _⟩
  · rw [htwin, Driver.twin, hidle]
    rfl
  · rw [h.log, visible, visible]
    simp [Event.isIsr]
  · refine h.entries.trans ?_
    rw [Time.entries, Time.entries, List.countP_append, List.countP_append, Nat.add_assoc]
    exact Nat.le_add_right _ _

/-- **The port looks at its timer.** An interrupt that only the periodic driver gets finds
nothing due. -/
theorem Agree.poll (h : Agree p t) (hcall : p.isr.mayCall = true) :
    ∃ p' t', p.perform .periodic .poll = .ok p' ∧ t.perform .tickless .poll = .ok t' ∧
      Agree p' t' ∧ p'.isr.mayCall = true := by
  by_cases hint : p.isr = .idle ∧ p.port.irqEnabled = true
  · obtain ⟨hidle, henabled⟩ := hint
    have hstep : p.step .periodic .interrupt = .ok { p with
        isr := .scanning p.port.now p.calls 0, log := p.log ++ [.entered p.port.now] } :=
      if_pos hidle
    obtain ⟨t₁, ht₁, h₁⟩ := h.step hstep
    have hperiodic : p.perform .periodic .poll = Driver.serve .periodic Driver.serveSteps { p with
        isr := .scanning p.port.now p.calls 0, log := p.log ++ [.entered p.port.now] } := by
      rw [Driver.perform, if_pos ⟨hidle, henabled⟩, hstep, Driver.ok_bind_serve]
    by_cases hdue : t.port.armed ≤ t.port.now
    · -- both are interrupted
      have htickless : t.isr = .idle ∧ t.port.interrupts .tickless = true := by
        obtain ⟨b, armed, log, rfl⟩ := h.twin
        exact ⟨hidle, Bool.and_eq_true_iff.mpr ⟨henabled, decide_eq_true hdue⟩⟩
      obtain ⟨p', t', hp', ht', h', hcall'⟩ := h₁.served rfl
      refine ⟨p', t', hperiodic.trans hp', ?_, h', hcall'⟩
      rw [Driver.perform, if_pos htickless, ht₁, Driver.ok_bind_serve, ht']
    · -- the deadlines of all slots are still to come
      have hnot : ∀ j, (p.ds.slots j).id ≠ 0 → p.port.now < (p.ds.slots j).when := by
        intro j hid
        have hstarted := h.enabled henabled
        obtain ⟨b, armed, log, rfl⟩ := h.twin
        have hle : armed ≤ (p.ds.slots j).when := h.armed hstarted j hid
        have hlate : p.port.now < armed := Nat.lt_of_not_le hdue
        exact Nat.lt_of_lt_of_le hlate hle
      have hserve := Driver.serve_idle_scan (s := { p with
          isr := .scanning p.port.now p.calls 0, log := p.log ++ [.entered p.port.now] })
        (n := Driver.serveSteps) rfl hnot (Nat.zero_le _) (Nat.le_add_right _ _)
      refine ⟨_, t, hperiodic.trans hserve, ?_, h.silent hidle p.port.now, rfl⟩
      rw [Driver.perform]
      refine if_neg fun htickless => hdue ?_
      exact of_decide_eq_true (Bool.and_eq_true_iff.mp htickless.2).2
  · -- neither is interrupted
    refine ⟨p, t, if_neg hint, if_neg fun htickless => hint ?_, h, hcall⟩
    obtain ⟨b, armed, log, rfl⟩ := h.twin
    exact ⟨htickless.1, (Bool.and_eq_true_iff.mp htickless.2).1⟩

/-- **Step lemma.** Whatever happens, both drivers go on and agree. -/
theorem Agree.perform (h : Agree p t) (hcall : p.isr.mayCall = true) {op : World}
    (hop : op.InRange) :
    ∃ p' t', p.perform .periodic op = .ok p' ∧ t.perform .tickless op = .ok t' ∧ Agree p' t' ∧
      p'.isr.mayCall = true := by
  -- what is a step of the drivers and starts no interrupt
  have hstep : ∀ {l p'}, p.step .periodic l = .ok p' → p'.isr = p.isr →
      ∃ p' t', p.step .periodic l = .ok p' ∧ t.step .tickless l = .ok t' ∧ Agree p' t' ∧
        p'.isr.mayCall = true := fun {l p'} hs hisr => by
    obtain ⟨t', ht', h'⟩ := h.step hs
    exact ⟨p', t', hs, ht', h', by rwa [hisr]⟩
  cases op with
  | scheduleAt tp cb arg => exact hstep (Driver.step_scheduleAt hcall hop) rfl
  | cancel handle => exact hstep (Driver.step_cancel hcall) rfl
  | start =>
    by_cases hstarted : p.ds.started = true
    · have hs : p.step .periodic .start = .ok p := (if_pos hcall).trans (if_pos hstarted)
      exact hstep hs rfl
    · have hs : p.step .periodic .start = .ok { p with
          ds := { p.ds with started := true }
          port := { p.ds.rearm .periodic p.port with irqEnabled := true } } :=
        (if_pos hcall).trans ((if_neg hstarted).trans (if_neg fun hfreq =>
          absurd hfreq.2 (Nat.pos_iff_ne_zero.mp h.frequency)))
      exact hstep hs rfl
  | stop =>
    have hs : p.step .periodic .stop = .ok (p.stop .periodic) := if_pos hcall
    refine hstep hs ?_
    rw [Driver.stop]
    split <;> rfl
  | advance ticks =>
    have hs : p.step .periodic (.advance ticks) =
        .ok { p with port := { p.port with now := (p.port.now + ticks) % 2 ^ 64 } } := rfl
    exact hstep hs rfl
  | poll => exact h.poll hcall
  | callbackReturns =>
    cases hisr : p.isr with
    | idle =>
      have hisr' : t.isr = .idle := h.isr.trans hisr
      exact ⟨p, t, if_pos hisr, if_pos hisr', h, hcall⟩
    | scanning now since i =>
      rw [hisr] at hcall
      cases hcall
    | callback now since i =>
      have hs : p.step .periodic .callbackReturns =
          .ok { p with isr := .scanning now since (i + 1) } := by
        simp only [Driver.step, hisr]
      have hbusy : p.isr ≠ .idle := by simp [hisr]
      have hbusy' : t.isr ≠ .idle := by simp [h.isr, hisr]
      obtain ⟨t₁, ht₁, h₁⟩ := h.step hs
      obtain ⟨p', t', hp', ht', h', hcall'⟩ := h₁.served rfl
      refine ⟨p', t', ?_, ?_, h', hcall'⟩
      · rw [Driver.perform, if_neg hbusy, hs, Driver.ok_bind_serve, hp']
      · rw [Driver.perform, if_neg hbusy', ht₁, Driver.ok_bind_serve, ht']

/-- **Run lemma.** -/
theorem Agree.run {ops : List World} (h : Agree p t) (hcall : p.isr.mayCall = true)
    (hops : ∀ op ∈ ops, op.InRange) :
    ∃ p' t', ops.foldlM (Driver.perform .periodic) p = .ok p' ∧
      ops.foldlM (Driver.perform .tickless) t = .ok t' ∧ Agree p' t' := by
  induction ops generalizing p t with
  | nil => exact ⟨p, t, rfl, rfl, h⟩
  | cons op ops ih =>
    obtain ⟨p₁, t₁, hp₁, ht₁, h₁, hcall₁⟩ := h.perform hcall (hops op List.mem_cons_self)
    obtain ⟨p', t', hp', ht', h'⟩ := ih h₁ hcall₁ fun op hop => hops op (List.mem_cons_of_mem _ hop)
    refine ⟨p', t', ?_, ?_, h'⟩
    · rw [List.foldlM_cons, hp₁]
      exact hp'
    · rw [List.foldlM_cons, ht₁]
      exact ht'

/-- **The tickless driver stands for the periodic one.** Whatever the world does, both drivers
go on, clients see the same of them, and the tickless one has been interrupted at most as
often. -/
theorem tickless_agrees {frequencyHz : Nat} (hfreq : 0 < frequencyHz) (now : Nat)
    {ops : List World} (hops : ∀ op ∈ ops, op.InRange) :
    ∃ p t, ops.foldlM (Driver.perform .periodic) (Driver.initial .periodic frequencyHz now) = .ok p ∧
      ops.foldlM (Driver.perform .tickless) (Driver.initial .tickless frequencyHz now) = .ok t ∧
      visible t.log = visible p.log ∧ entries t.log ≤ entries p.log ∧ t.isr = p.isr := by
  obtain ⟨p, t, hp, ht, h⟩ := (Agree.initial hfreq now).run rfl hops
  exact ⟨p, t, hp, ht, h.log, h.entries, h.isr⟩

/-- Two deadlines; the port looks at its timer after every five ticks. The first callback
cancels the second deadline and asks for a later one. -/
def twoDeadlines : List World :=
  [.start, .scheduleAt 10 (some 1) 0, .scheduleAt 20 (some 2) 0, .advance 5, .poll, .advance 5,
    .poll, .cancel ⟨2⟩, .scheduleAt 25 (some 3) 0, .callbackReturns, .advance 5, .poll, .advance 5,
    .poll, .advance 5, .poll, .callbackReturns]

theorem tickless_agrees_twoDeadlines : (∀ op ∈ twoDeadlines, op.InRange) ∧
    ∃ p t, twoDeadlines.foldlM (Driver.perform .periodic) (Driver.initial .periodic 1000 0) = .ok p ∧
      twoDeadlines.foldlM (Driver.perform .tickless) (Driver.initial .tickless 1000 0) = .ok t ∧
      visible t.log = visible p.log ∧ entries t.log ≤ entries p.log ∧ t.isr = p.isr :=
  ⟨by decide, tickless_agrees (by decide) 0 (by decide)⟩

-- five interrupts against two
example :
    (twoDeadlines.foldlM (Driver.perform .periodic) (Driver.initial .periodic 1000 0)).map
        (fun p => entries p.log) = .ok 5 ∧
      (twoDeadlines.foldlM (Driver.perform .tickless) (Driver.initial .tickless 1000 0)).map
        (fun t => entries t.log) = .ok 2 := by
  decide +kernel

end Cortos.Time
