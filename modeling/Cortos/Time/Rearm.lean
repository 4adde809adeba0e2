import Cortos.Time.SlotDriver

/-!
# What the tickless driver leaves armed

`rearm_locked` computes the earliest deadline in the table and passes it to the port,
whose `arm` keeps the smaller of the armed deadline and the new one.

- The armed deadline is never late: while the driver is started it is at or before the
  deadline of every filled slot (`never_armed_late`).
- It can be stale. `arm` cannot raise it, so when the earliest callback is cancelled or
  started and a later one is left, the old deadline stays armed. `Rearmable` says when
  a rearm leaves the deadline of a filled slot (`DriverState.rearm_fresh`), and
  `not_stale_iff` says it of whole runs. A client is safe that has callbacks of one
  deadline pending at a time and schedules none from a callback
  (`not_stale_of_together`).
-/

namespace Cortos.Time

open Lib

variable {kind : Kind} {s s' : Driver} {l : Label} {ds : DriverState} {port : Port}

/-! ## The earliest deadline -/

/-- The slot is filled, with this deadline. -/
def Slot.Due (slot : Slot) (deadline : Nat) : Prop := slot.id ≠ 0 ∧ slot.when = deadline

instance {slot : Slot} {deadline : Nat} : Decidable (slot.Due deadline) :=
  inferInstanceAs (Decidable (_ ∧ _))

/-- The loop of `rearm_locked` from the slots `is` on, with `acc` found so far. -/
theorem DriverState.earliest_foldl (is : List (Fin maxScheduledCallbacks)) :
    ∀ acc, ∃ e, is.foldl (fun e i => if (ds.slots i).id ≠ 0 ∧ (ds.slots i).when < e
        then (ds.slots i).when else e) acc = e ∧
      e ≤ acc ∧ (∀ i ∈ is, (ds.slots i).id ≠ 0 → e ≤ (ds.slots i).when) ∧
      (e = acc ∨ ∃ i, (ds.slots i).Due e) := by
  induction is with
  | nil => exact fun acc => ⟨acc, rfl, Nat.le_refl _, by simp, .inl rfl⟩
  | cons i is ih =>
    intro acc
    rw [List.foldl_cons]
    by_cases hi : (ds.slots i).id ≠ 0 ∧ (ds.slots i).when < acc
    · -- slot `i` is the earliest so far
      rw [if_pos hi]
      obtain ⟨e, heq, hle, hall, hmem⟩ := ih (ds.slots i).when
      refine ⟨e, heq, hle.trans (Nat.le_of_lt hi.2), ?_, .inr ?_⟩
      · intro j hj hid
        rcases List.mem_cons.mp hj with rfl | hj
        · exact hle
        · exact hall j hj hid
      · rcases hmem with rfl | hmem
        · exact ⟨i, hi.1, rfl⟩
        · exact hmem
    · rw [if_neg hi]
      obtain ⟨e, heq, hle, hall, hmem⟩ := ih acc
      refine ⟨e, heq, hle, ?_, hmem⟩
      intro j hj hid
      rcases List.mem_cons.mp hj with rfl | hj
      · exact hle.trans (Nat.le_of_not_lt fun hlt => hi ⟨hid, hlt⟩)
      · exact hall j hj hid

theorem DriverState.earliest_le {i : Fin maxScheduledCallbacks} (hid : (ds.slots i).id ≠ 0) :
    ds.earliest ≤ (ds.slots i).when := by
  obtain ⟨e, heq, -, hall, -⟩ := ds.earliest_foldl (List.finRange maxScheduledCallbacks) u64Max
  have heq' : ds.earliest = e := heq
  rw [heq']
  exact hall i (List.mem_finRange i) hid

theorem DriverState.earliest_due :
    ds.earliest ≤ u64Max ∧ (ds.earliest = u64Max ∨ ∃ i, (ds.slots i).Due ds.earliest) := by
  obtain ⟨e, heq, hle, -, hmem⟩ := ds.earliest_foldl (List.finRange maxScheduledCallbacks) u64Max
  have heq' : ds.earliest = e := heq
  exact heq' ▸ ⟨hle, hmem⟩

theorem Port.arm_armed {deadline : Nat} :
    (port.arm deadline).armed = min port.armed deadline := by
  unfold Port.arm
  split
  · rw [min_eq_right (by omega)]
  · rw [min_eq_left (by omega)]

/-- The armed deadline after `rearm_locked`. -/
theorem DriverState.rearm_armed :
    (ds.rearm .tickless port).armed =
      if ds.earliest = u64Max then u64Max else min port.armed ds.earliest := by
  show (if ds.earliest = u64Max then port.disarm else port.arm ds.earliest).armed = _
  split
  · rfl
  · exact Port.arm_armed

/-! ## Never late -/

/-- The timer is armed at or before the deadline of every filled slot. -/
def ArmedInTime (s : Driver) : Prop :=
  ∀ i, (s.ds.slots i).id ≠ 0 → s.port.armed ≤ (s.ds.slots i).when

/-- `rearm_locked` arms in time. -/
theorem DriverState.rearm_in_time (i : Fin maxScheduledCallbacks) (hid : (ds.slots i).id ≠ 0) :
    (ds.rearm .tickless port).armed ≤ (ds.slots i).when := by
  rw [DriverState.rearm_armed]
  have hle := DriverState.earliest_le hid
  split
  case isTrue hmax => rwa [← hmax]
  case isFalse => exact (min_le_right _ _).trans hle

theorem ArmedInTime.move (hmove : Move .tickless s l s')
    (h : s.ds.started = true → ArmedInTime s) : s'.ds.started = true → ArmedInTime s' := by
  intro hstarted
  cases hmove with
  | refuse | cancelNone | enter | skip | callbackReturns | advance | stay => exact h hstarted
  | schedule => exact DriverState.rearm_in_time
  | cancel => exact DriverState.rearm_in_time
  | fire =>
    intro j hj
    have heq := (DriverState.free_filled hj).1
    rw [heq] at hj ⊢
    exact h hstarted j hj
  | leave => exact DriverState.rearm_in_time
  | start => exact DriverState.rearm_in_time
  | stop hcall hbefore =>
    rw [Driver.stop, if_pos hbefore] at hstarted
    cases hstarted

/-- **The tickless driver never arms late.** While the driver is started, the port's
armed deadline is at or before the deadline of every filled slot. It holds between the
calls of the driver and also while an `on_timer_isr` is running. -/
theorem never_armed_late (frequencyHz : Nat) (s : Driver)
    (h : (slotSystem .tickless frequencyHz).ReachVia (fun _ _ => True) s)
    (hstarted : s.ds.started = true) :
    ∀ i, (s.ds.slots i).id ≠ 0 → s.port.armed ≤ (s.ds.slots i).when := by
  have hinv : s.ds.started = true → ArmedInTime s := by
    refine Lts.ReachVia.invariant (I := fun s => s.ds.started = true → ArmedInTime s) ?_ ?_ h
    · rintro s ⟨now, -, rfl⟩ hfalse
      cases hfalse
    · exact fun s l s' _ hinv _ hstep => ArmedInTime.move (Driver.step_move hstep) hinv
  exact hinv hstarted

/-- Three callbacks, the last of them at `TimePoint::max()`. The driver is stopped, an
interrupt starts the first callback meanwhile, and the driver is started again. -/
theorem never_armed_late_restart :
    ∃ s, (slotSystem .tickless 1000).ReachVia (fun _ _ => True) s ∧
      (s.ds.started = true ∧ s.isr = .idle ∧ s.port.armed = 20 ∧ (s.ds.slots 1).id ≠ 0 ∧
        (s.ds.slots 2).id ≠ 0) ∧
      s.port.armed ≤ (s.ds.slots 1).when ∧ s.port.armed ≤ (s.ds.slots 2).when := by
  have hrun : (slotSystem .tickless 1000).runsTo (fun _ _ => True)
      (fun s => s.ds.started = true ∧ s.isr = .idle ∧ s.port.armed = 20 ∧
        (s.ds.slots 1).id ≠ 0 ∧ (s.ds.slots 2).id ≠ 0) (Driver.initial .tickless 1000 0)
      [.start, .scheduleAt 10 (some 1) 0, .scheduleAt 20 (some 2) 0, .scheduleAt u64Max (some 3) 0,
        .stop, .advance 10, .interrupt, .scan, .cancel ⟨7⟩, .callbackReturns, .scan, .scan, .scan,
        .scan, .scan, .scan, .scan, .scan, .scan, .scan, .scan, .scan, .scan, .scan, .scan, .scan,
        .start] = true := by
    decide +kernel
  have hinit : (slotSystem .tickless 1000).init (Driver.initial .tickless 1000 0) :=
    ⟨0, by decide, rfl⟩
  obtain ⟨s, hs, hfacts⟩ := Lts.ReachVia.runsTo (.init hinit) hrun
  have hintime := never_armed_late 1000 s hs hfacts.1
  exact ⟨s, hs, hfacts, hintime 1 hfacts.2.2.2.1, hintime 2 hfacts.2.2.2.2⟩

/-! ## Stale deadlines -/

/-- The armed deadline is that of a filled slot, or none is armed. -/
def NotStale (s : Driver) : Prop :=
  s.port.armed = u64Max ∨ ∃ i, (s.ds.slots i).Due s.port.armed

instance : Decidable (NotStale s) := inferInstanceAs (Decidable (_ ∨ _))

/-- No filled slot has a deadline below `UINT64_MAX`, or one has a deadline at or before
the armed one. -/
def DriverState.Rearmable (ds : DriverState) (armed : Nat) : Prop :=
  (∀ i, (ds.slots i).id ≠ 0 → u64Max ≤ (ds.slots i).when) ∨
    ∃ i, (ds.slots i).id ≠ 0 ∧ (ds.slots i).when ≤ armed

instance {armed : Nat} : Decidable (ds.Rearmable armed) := inferInstanceAs (Decidable (_ ∨ _))

/-- When `rearm_locked` leaves the deadline of a filled slot armed, or none. -/
theorem DriverState.rearm_fresh :
    ((ds.rearm .tickless port).armed = u64Max ∨
        ∃ i, (ds.slots i).Due (ds.rearm .tickless port).armed) ↔ ds.Rearmable port.armed := by
  rw [DriverState.rearm_armed]
  obtain ⟨hle, hdue⟩ := ds.earliest_due
  by_cases hmax : ds.earliest = u64Max
  · rw [if_pos hmax]
    exact iff_of_true (.inl rfl) (.inl fun i hid => hmax ▸ DriverState.earliest_le hid)
  · rw [if_neg hmax]
    constructor
    · rintro (hmin | ⟨i, hid, hwhen⟩)
      · have := min_le_right port.armed ds.earliest
        omega
      · exact .inr ⟨i, hid, hwhen ▸ min_le_left _ _⟩
    · rintro (hall | ⟨i, hid, hwhen⟩)
      · obtain ⟨i, hid, hwhen⟩ := hdue.resolve_left hmax
        have := hall i hid
        omega
      · -- the armed deadline is lowered to the earliest one
        rw [min_eq_right ((DriverState.earliest_le hid).trans hwhen)]
        exact .inr (hdue.resolve_left hmax)

/-- What a step has to find so that no stale deadline is left: a cancel, outside an
interrupt, in the slots that remain, and the return of an `on_timer_isr` in the
slots. -/
def RearmsFresh (s : Driver) : Label → Prop
  | .cancel h => s.isr = .idle → h.id ≠ 0 → ∀ i, s.ds.find h = some i →
    (s.ds.setSlot i {}).Rearmable s.port.armed
  | .scan => maxScheduledCallbacks ≤ s.isr.passed → s.ds.Rearmable s.port.armed
  | _ => True

instance : (l : Label) → Decidable (RearmsFresh s l)
  | .cancel _ | .scan => inferInstanceAs (Decidable (_ → _))
  | .scheduleAt .. | .interrupt | .callbackReturns | .advance _ | .start | .stop => .isTrue trivial

/-- What is armed between two calls, after a step that meets the condition. -/
theorem NotStale.move (hmove : Move .tickless s l s') (hidle : s'.isr = .idle)
    (hfresh : s.isr = .idle → NotStale s) (hl : RearmsFresh s l) : NotStale s' := by
  by_cases hbefore : s.isr = .idle
  · have h := hfresh hbefore
    cases hmove with
    | refuse | cancelNone | advance | stay => exact h
    | @schedule i tp arg cb hcall htp hfree =>
      refine DriverState.rearm_fresh.mpr (.inr ?_)
      rcases h with hmax | ⟨j, hid, hwhen⟩
      · -- the new callback itself
        refine ⟨i, ?_⟩
        rw [hmax, DriverState.fill, DriverState.setSlot_self]
        exact ⟨takeId_ne_zero _, htp⟩
      · have hji : j ≠ i := by
          rintro rfl
          exact hid hfree
        refine ⟨j, ?_⟩
        rw [DriverState.fill, DriverState.setSlot_of_ne hji]
        exact ⟨hid, Nat.le_of_eq hwhen⟩
    | @cancel i h' hcall hid hi => exact DriverState.rearm_fresh.mpr (hl hbefore hid i hi)
    | enter | skip | fire | callbackReturns => cases hidle
    | leave hisr =>
      rw [hisr] at hbefore
      cases hbefore
    | start =>
      refine DriverState.rearm_fresh.mpr ?_
      rcases h with hmax | ⟨j, hid, hwhen⟩
      · by_cases hall : ∀ i, (s.ds.slots i).id ≠ 0 → u64Max ≤ (s.ds.slots i).when
        · exact .inl hall
        · push Not at hall
          obtain ⟨i, hid, hlt⟩ := hall
          exact .inr ⟨i, hid, hmax ▸ Nat.le_of_lt hlt⟩
      · exact .inr ⟨j, hid, Nat.le_of_eq hwhen⟩
    | stop hcall hstarted =>
      left
      simp [Driver.stop, hstarted, Port.disarm]
  · -- the `on_timer_isr` returns
    have hall := hmove.isr_returns hbefore hidle
    cases hmove with
    | leave => exact DriverState.rearm_fresh.mpr (hl hall)
    | enter | skip | fire | callbackReturns => cases hidle
    | stop hcall hstarted =>
      refine absurd ?_ hbefore
      simpa [Driver.stop, hstarted] using hidle
    | _ => exact absurd hidle hbefore

/-- The condition is needed at each step. -/
theorem RearmsFresh.of_notStale (hmove : Move .tickless s l s')
    (hfresh : s'.isr = .idle → NotStale s') : RearmsFresh s l := by
  cases hmove with
  | @cancel i h' hcall hid hi =>
    intro hidle _ j hj
    obtain rfl : i = j := Option.some.inj (hi.symm.trans hj)
    exact DriverState.rearm_fresh.mp (hfresh hidle)
  | @cancelNone h' hcall hnone =>
    intro _ hid j hj
    rcases hnone with hzero | hnone
    · exact absurd hzero hid
    · exact absurd (DriverState.find_some hj) (hnone j)
  | @skip now since i hisr hnot | @fire now since i cb hisr hid hdue hcb =>
    intro hall
    rw [hisr] at hall
    exact absurd i.isLt (Nat.not_lt_of_le hall)
  | leave => exact fun _ => DriverState.rearm_fresh.mp (hfresh rfl)
  | stay hl => rcases hl with rfl | rfl <;> trivial
  | _ => trivial

/-- **When the tickless driver leaves no stale deadline armed.** In a run, the armed
deadline is that of a filled slot, or none is armed, whenever no driver call is in
progress, if and only if each cancel and each return of an `on_timer_isr` finds the
slots `Rearmable`. -/
theorem not_stale_iff (frequencyHz n : Nat) (r : (slotSystem .tickless frequencyHz).Run n) :
    (∀ i ≤ n, (r.state i).isr = .idle → NotStale (r.state i)) ↔
      ∀ i < n, RearmsFresh (r.state i) (r.label i) := by
  constructor
  · intro h i hi
    exact RearmsFresh.of_notStale (slotRun_move r hi) (h (i + 1) hi)
  · intro h i
    induction i with
    | zero =>
      intro _ _
      obtain ⟨now, -, hinit⟩ := r.start
      rw [hinit]
      exact .inl rfl
    | succ i ih =>
      intro hi hidle
      exact NotStale.move (slotRun_move r hi) hidle (ih (by omega)) (h i hi)

/-! ## What a client may call -/

/-- A client schedules a callback outside the callbacks, and for the deadline of those that
are pending. It may cancel as it likes. -/
def SchedulesTogether (s : Driver) : Label → Prop
  | .scheduleAt tp _ _ => s.isr = .idle ∧ ∀ i, (s.ds.slots i).id ≠ 0 → (s.ds.slots i).when = tp
  | _ => True

/-- The filled slots have one deadline, and it is not after the armed one. -/
structure DriverState.Together (ds : DriverState) (armed : Nat) : Prop where
  same : ∀ i j, (ds.slots i).id ≠ 0 → (ds.slots j).id ≠ 0 → (ds.slots i).when = (ds.slots j).when
  le_max : ∀ i, (ds.slots i).id ≠ 0 → (ds.slots i).when ≤ u64Max
  le_armed : ∀ i, (ds.slots i).id ≠ 0 → (ds.slots i).when ≤ armed

namespace DriverState.Together

variable {armed : Nat}

theorem rearmable (h : ds.Together armed) : ds.Rearmable armed := by
  by_cases hfilled : ∃ i, (ds.slots i).id ≠ 0
  · obtain ⟨i, hid⟩ := hfilled
    exact .inr ⟨i, hid, h.le_armed i hid⟩
  · exact .inl fun i hid => absurd ⟨i, hid⟩ hfilled

theorem free (h : ds.Together armed) (i : Fin maxScheduledCallbacks) :
    (ds.setSlot i {}).Together armed where
  same j k hj hk := by
    have hjeq := (free_filled hj).1
    have hkeq := (free_filled hk).1
    rw [hjeq] at hj ⊢
    rw [hkeq] at hk ⊢
    exact h.same j k hj hk
  le_max j hj := by
    have heq := (free_filled hj).1
    rw [heq] at hj ⊢
    exact h.le_max j hj
  le_armed j hj := by
    have heq := (free_filled hj).1
    rw [heq] at hj ⊢
    exact h.le_armed j hj

/-- `rearm_locked` arms the common deadline. -/
theorem rearm (h : ds.Together port.armed) : ds.Together (ds.rearm .tickless port).armed := by
  refine ⟨h.same, h.le_max, fun i hid => ?_⟩
  rw [rearm_armed]
  split
  case isTrue => exact h.le_max i hid
  case isFalse hne =>
    obtain ⟨j, hjd, hwhen⟩ := ds.earliest_due.2.resolve_left hne
    exact le_min (h.le_armed i hid) (Nat.le_of_eq ((h.same i j hid hjd).trans hwhen))

/-- **Step lemma.** -/
theorem move (hmove : Move .tickless s l s') (hfresh : s.isr = .idle → NotStale s)
    (hl : SchedulesTogether s l) (h : s.ds.Together s.port.armed) :
    s'.ds.Together s'.port.armed := by
  cases hmove with
  | refuse | cancelNone | enter | skip | callbackReturns | advance | stay => exact h
  | @schedule i tp arg cb hcall htp hfree =>
    obtain ⟨hidle, hsame⟩ := hl
    refine rearm ?_
    have hwhen : ∀ j, ((s.ds.fill i s.calls tp cb arg).slots j).id ≠ 0 →
        ((s.ds.fill i s.calls tp cb arg).slots j).when = tp := by
      intro j hj
      rcases @fill_slots s.ds i s.calls tp arg cb j with ⟨heq, -⟩ | ⟨heq, -⟩
      · rw [heq] at hj ⊢
        exact hsame j hj
      · rw [heq]
    -- outside the callbacks the armed deadline is that of a filled slot, or none is armed
    have harmed : tp ≤ s.port.armed := by
      rcases hfresh hidle with hmax | ⟨j, hid, hdue⟩
      · rwa [hmax]
      · exact Nat.le_of_eq ((hsame j hid).symm.trans hdue)
    exact ⟨fun j k hj hk => (hwhen j hj).trans (hwhen k hk).symm,
      fun j hj => (hwhen j hj).le.trans htp, fun j hj => (hwhen j hj).le.trans harmed⟩
  | cancel => exact (h.free _).rearm
  | fire => exact h.free _
  | leave => exact h.rearm
  | start => exact ⟨h.same, h.le_max, h.rearm.le_armed⟩
  | stop hcall hstarted =>
    rw [Driver.stop, if_pos hstarted]
    exact ⟨h.same, h.le_max, h.le_max⟩

end DriverState.Together

/-- With one deadline pending, every rearm finds the slots `Rearmable`. -/
theorem RearmsFresh.of_together (h : s.ds.Together s.port.armed) : RearmsFresh s l := by
  cases l with
  | cancel => exact fun _ _ i _ => (h.free i).rearmable
  | scan => exact fun _ => h.rearmable
  | _ => trivial

/-- A client that has callbacks of one deadline pending at a time, and schedules none from
a callback, leaves no stale deadline armed. -/
theorem not_stale_of_together (frequencyHz n : Nat)
    (r : (slotSystem .tickless frequencyHz).Run n)
    (hr : ∀ i < n, SchedulesTogether (r.state i) (r.label i)) :
    ∀ i ≤ n, (r.state i).isr = .idle → NotStale (r.state i) := by
  have hinv : ∀ i ≤ n, ((r.state i).isr = .idle → NotStale (r.state i)) ∧
      (r.state i).ds.Together (r.state i).port.armed := by
    intro i
    induction i with
    | zero =>
      intro _
      obtain ⟨now, -, hinit⟩ := r.start
      rw [hinit]
      exact ⟨fun _ => .inl rfl, fun i _ hid _ => absurd rfl hid, fun i hid => absurd rfl hid,
        fun i hid => absurd rfl hid⟩
    | succ i ih =>
      intro hi
      obtain ⟨hfresh, htogether⟩ := ih (by omega)
      have hmove := slotRun_move r hi
      exact ⟨fun hidle => NotStale.move hmove hidle hfresh (.of_together htogether),
        .move hmove hfresh (hr i hi) htogether⟩
  exact fun i hi => (hinv i hi).1

/-- The first of two callbacks is cancelled. -/
def cancelEarliest : (slotSystem .tickless 1000000).Run 3 :=
  .ofLabels (Driver.initial .tickless 1000000 0)
    [.scheduleAt 10 (some 1) 0, .scheduleAt 20 (some 2) 0, .cancel ⟨1⟩]
    .scan slotSystem_init_megahertz (by decide +kernel)

/-- The only callback left is due at 20, and the timer is armed for 10. -/
theorem stale_deadline_run :
    (cancelEarliest.state 3).isr = .idle ∧ (cancelEarliest.state 3).port.armed = 10 ∧
    (∀ i, ((cancelEarliest.state 3).ds.slots i).id ≠ 0 →
      ((cancelEarliest.state 3).ds.slots i).when = 20) ∧
    ¬ NotStale (cancelEarliest.state 3) := by
  decide +kernel

/-- The later of two callbacks is cancelled, and the other one is started. -/
def cancelLater : (slotSystem .tickless 1000000).Run 24 :=
  .ofLabels (Driver.initial .tickless 1000000 0)
    (List.flatten [[.scheduleAt 20 (some 1) 0, .scheduleAt 10 (some 2) 0, .cancel ⟨1⟩, .advance 10,
      .interrupt], List.replicate 2 .scan, [.callbackReturns], List.replicate 15 .scan, [.start]])
    .scan slotSystem_init_megahertz (by decide +kernel)

theorem not_stale_iff_cancel_later :
    (cancelLater.state 3).port.armed = 10 ∧ (cancelLater.state 24).port.armed = u64Max ∧
      ∀ i ≤ 24, (cancelLater.state i).isr = .idle → NotStale (cancelLater.state i) := by
  have hfresh : ∀ i < 24, RearmsFresh (cancelLater.state i) (cancelLater.label i) := by
    decide +kernel
  exact ⟨by decide +kernel, by decide +kernel, (not_stale_iff 1000000 24 cancelLater).mpr hfresh⟩

end Cortos.Time
