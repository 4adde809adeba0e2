import Cortos.Time.SlotDriver

/-!
# The slot drivers provide the timer service

`Refines` ties a periodic or tickless driver to a state of the service: the filled
slots are the pending timers. Every step of a driver is a step of the service or none
(`Refines.move`), as long as a new id is not one that a filled slot already has.
`Table` is what the drivers keep besides: which slots the running `on_timer_isr` has
passed, and that no due slot among them was there when it was entered.

With fewer than `2 ^ 32 - 1` calls of `schedule_at` the ids do not come round
(`Numbered`), so that a handle names one call, and `timers_exactly_once` states what
clients may rely on in every run, however the callbacks use the driver.
-/

namespace Cortos.Time

open Lib

variable {kind : Kind} {s s' : Driver} {a a' : Service} {l : Label}
  {i j : Fin maxScheduledCallbacks}

/-! ## Refinement -/

/-- The slot holds the timer `x` of call `t`. -/
def Slot.Holds (slot : Slot) (t : Nat) (x : Timer) : Prop :=
  slot.id ≠ 0 ∧ slot.ticket = t ∧ x = ⟨⟨slot.id⟩, slot.when⟩

theorem Slot.not_holds_empty {t : Nat} {x : Timer} : ¬ ({} : Slot).Holds t x :=
  fun h => h.1 rfl

/-- The filled slots of the driver are the pending timers of the service. -/
structure Refines (s : Driver) (a : Service) : Prop where
  inv : a.Inv
  calls : a.calls = s.calls
  log : a.log = s.log
  pending : ∀ t x, a.pending t = some x ↔ ∃ i, (s.ds.slots i).Holds t x
  ticket : ∀ i j, (s.ds.slots i).id ≠ 0 → (s.ds.slots j).id ≠ 0 →
    (s.ds.slots i).ticket = (s.ds.slots j).ticket → i = j

namespace Refines

theorem initial (kind : Kind) (frequencyHz now : Nat) :
    Refines (Driver.initial kind frequencyHz now) Service.initial where
  inv := .initial
  calls := rfl
  log := rfl
  pending t x := by
    constructor
    · intro h
      cases h
    · rintro ⟨i, hid, -⟩
      exact absurd rfl hid
  ticket i j hid := absurd rfl hid

theorem holds (h : Refines s a) (hid : (s.ds.slots i).id ≠ 0) :
    a.pending (s.ds.slots i).ticket = some ⟨⟨(s.ds.slots i).id⟩, (s.ds.slots i).when⟩ :=
  (h.pending _ _).mpr ⟨i, hid, rfl, rfl⟩

/-- The table and the record are as before. -/
theorem frame (h : Refines s a) (hds : s'.ds.slots = s.ds.slots) (hcalls : s'.calls = s.calls)
    (hlog : s'.log = s.log) : Refines s' a where
  inv := h.inv
  calls := h.calls.trans hcalls.symm
  log := h.log.trans hlog.symm
  pending := by
    rw [hds]
    exact h.pending
  ticket := by
    rw [hds]
    exact h.ticket

/-- The record grows and the table is as before. -/
theorem record (h : Refines s a) (hstep : Service.Step a a') (hpending : a'.pending = a.pending)
    (hds : s'.ds.slots = s.ds.slots) (hcalls : a'.calls = s'.calls) (hlog : a'.log = s'.log) :
    Refines s' a' where
  inv := h.inv.step hstep
  calls := hcalls
  log := hlog
  pending := by
    rw [hds, hpending]
    exact h.pending
  ticket := by
    rw [hds]
    exact h.ticket

/-- Slot `i` is filled for the next call. -/
theorem fill (h : Refines s a) (hfree : (s.ds.slots i).id = 0) {slot : Slot}
    (hid : slot.id ≠ 0) (hticket : slot.ticket = s.calls)
    (hfresh : ∀ j, (s.ds.slots j).id ≠ slot.id)
    (hslots : s'.ds.slots = Function.update s.ds.slots i slot)
    (hcalls : s'.calls = s.calls + 1)
    (hlog : s'.log = s.log ++ [.scheduled s.calls ⟨slot.id⟩ slot.when]) :
    ∃ a', (a' = a ∨ Service.Step a a') ∧ Refines s' a' := by
  have hunused : ∀ t x, a.pending t = some x → x.handle ≠ ⟨slot.id⟩ := by
    intro t x hx heq
    obtain ⟨j, -, -, rfl⟩ := (h.pending t x).mp hx
    exact hfresh j (congrArg Handle.id heq)
  have hstep : Service.Step a ⟨a.calls + 1, Function.update a.pending a.calls
      (some ⟨⟨slot.id⟩, slot.when⟩), a.log ++ [.scheduled a.calls ⟨slot.id⟩ slot.when]⟩ :=
    .schedule hid hunused
  -- tickets of filled slots were given earlier
  have hearlier : ∀ j, (s.ds.slots j).id ≠ 0 → (s.ds.slots j).ticket ≠ s.calls := by
    intro j hj heq
    have hnone := (h.inv.unborn (t := s.calls) (Nat.le_of_eq h.calls)).1
    rw [← heq, h.holds hj] at hnone
    cases hnone
  refine ⟨_, .inr hstep, h.inv.step hstep, ?_, ?_, ?_, ?_⟩
  · rw [h.calls, hcalls]
  · rw [hlog, h.log, h.calls]
  · refine Service.pending_add h.pending (fun x => ?_) fun t x => ?_
    · rintro ⟨j, hj⟩
      exact hearlier j hj.1 (hj.2.1.trans h.calls)
    · rw [hslots, Function.exists_update_iff (p := fun _ slot => Slot.Holds slot t x), h.calls]
      constructor
      · rintro (hx | ⟨j, -, hj⟩)
        · exact .inl ⟨hx.2.1.symm.trans hticket, hx.2.2⟩
        · exact .inr ⟨j, hj⟩
      · rintro (⟨rfl, rfl⟩ | ⟨j, hj⟩)
        · exact .inl ⟨hid, hticket, rfl⟩
        · refine .inr ⟨j, ?_, hj⟩
          rintro rfl
          exact hj.1 hfree
  · intro j k hj hk hjk
    rw [hslots] at hj hk hjk
    by_cases hji : j = i <;> by_cases hki : k = i
    · rw [hji, hki]
    · rw [hji, Function.update_self, Function.update_of_ne hki, hticket] at hjk
      rw [Function.update_of_ne hki] at hk
      exact absurd hjk.symm (hearlier k hk)
    · rw [hki, Function.update_self, Function.update_of_ne hji, hticket] at hjk
      rw [Function.update_of_ne hji] at hj
      exact absurd hjk (hearlier j hj)
    · rw [Function.update_of_ne hji, Function.update_of_ne hki] at hjk
      rw [Function.update_of_ne hji] at hj
      rw [Function.update_of_ne hki] at hk
      exact h.ticket j k hj hk hjk

/-- Slot `i` is freed. -/
theorem free (h : Refines s a) (hid : (s.ds.slots i).id ≠ 0) {e : Event}
    (hstep : Service.Step a
      ⟨a.calls, Function.update a.pending (s.ds.slots i).ticket none, a.log ++ [e]⟩)
    (hslots : s'.ds.slots = Function.update s.ds.slots i {}) (hcalls : s'.calls = s.calls)
    (hlog : s'.log = s.log ++ [e]) :
    Refines s' ⟨a.calls, Function.update a.pending (s.ds.slots i).ticket none, a.log ++ [e]⟩ := by
  refine ⟨h.inv.step hstep, h.calls.trans hcalls.symm, ?_, ?_, ?_⟩
  · rw [hlog, h.log]
  · refine Service.pending_drop h.pending fun t x => ?_
    rw [hslots, Function.exists_update_iff (p := fun _ slot => Slot.Holds slot t x)]
    constructor
    · rintro (hx | ⟨j, hji, hj⟩)
      · exact absurd hx Slot.not_holds_empty
      · refine ⟨?_, j, hj⟩
        rintro rfl
        exact hji (h.ticket j i hj.1 hid hj.2.1)
    · rintro ⟨ht, j, hj⟩
      refine .inr ⟨j, ?_, hj⟩
      rintro rfl
      exact ht hj.2.1.symm
  · intro j k hj hk hjk
    have hne : ∀ {m}, (s'.ds.slots m).id ≠ 0 → m ≠ i := by
      intro m hm hmi
      rw [hslots, hmi, Function.update_self] at hm
      exact hm rfl
    have hji := hne hj
    have hki := hne hk
    rw [hslots, Function.update_of_ne hji] at hj hjk
    rw [hslots, Function.update_of_ne hki] at hk
    rw [Function.update_of_ne hki] at hjk
    exact h.ticket j k hj hk hjk

end Refines

/-- The id that `schedule_at` would give is not in the table. -/
def IdFree (s : Driver) : Prop := ∀ i, (s.ds.slots i).id ≠ (takeId s.ds.nextId).1

instance : Decidable (IdFree s) := inferInstanceAs (Decidable (∀ _, _))

/-- A step of a driver is a step of the service, or none. -/
theorem Refines.move (h : Refines s a) (hmove : Move kind s l s')
    (hids : l.schedules = true → IdFree s) :
    ∃ a', (a' = a ∨ Service.Step a a') ∧ Refines s' a' := by
  cases hmove with
  | @refuse tp arg cb hcall hwhy =>
    have hstep : Service.Step a
      ⟨a.calls + 1, a.pending, a.log ++ [.scheduled a.calls {} tp]⟩ := .refuse
    exact ⟨_, .inr hstep, h.record hstep rfl rfl (by rw [h.calls]) (by rw [h.calls, h.log])⟩
  | @schedule i tp arg cb hcall htp hfree =>
    refine h.fill hfree ?_ ?_ ?_ rfl rfl rfl
    · exact takeId_ne_zero _
    · rfl
    · exact hids rfl
  | @cancel i h' hcall hid hi =>
    have hslot := DriverState.find_some hi
    have hid' : (s.ds.slots i).id ≠ 0 := by rwa [hslot]
    have hstep := Service.Step.cancel (h.holds hid')
    refine ⟨_, .inr hstep, h.free hid' hstep rfl rfl ?_⟩
    rw [hslot]
  | @cancelNone h' hcall hnone =>
    have hstep : Service.Step a ⟨a.calls, a.pending, a.log ++ [.cancelled h' false]⟩ := by
      refine .cancelNone fun t x hx heq => ?_
      obtain ⟨i, hid, -, rfl⟩ := (h.pending t x).mp hx
      rcases hnone with hzero | hnone
      · exact hid ((congrArg Handle.id heq).trans hzero)
      · exact hnone i (congrArg Handle.id heq)
    exact ⟨_, .inr hstep, h.record hstep rfl rfl h.calls (by rw [h.log])⟩
  | enter hidle =>
    have hstep : Service.Step a ⟨a.calls, a.pending, a.log ++ [.entered s.port.now]⟩ := .isr rfl
    exact ⟨_, .inr hstep, h.record hstep rfl rfl h.calls (by rw [h.log])⟩
  | skip => exact ⟨a, .inl rfl, h.frame rfl rfl rfl⟩
  | @fire now since i cb hisr hid hdue hcb =>
    have hstep : Service.Step a ⟨a.calls, Function.update a.pending (s.ds.slots i).ticket none,
        a.log ++ [.invoked (s.ds.slots i).ticket cb (s.ds.slots i).arg now]⟩ :=
      .invoke (h.holds hid) hdue
    exact ⟨_, .inr hstep, h.free hid hstep rfl rfl rfl⟩
  | leave hisr hi =>
    have hstep : Service.Step a ⟨a.calls, a.pending, a.log ++ [.returned]⟩ := .isr rfl
    exact ⟨_, .inr hstep, h.record hstep rfl rfl h.calls (by rw [h.log])⟩
  | callbackReturns | advance | start => exact ⟨a, .inl rfl, h.frame rfl rfl rfl⟩
  | stop hcall hstarted =>
    refine ⟨a, .inl rfl, h.frame ?_ ?_ ?_⟩ <;> simp [Driver.stop, hstarted]
  | stay => exact ⟨a, .inl rfl, h⟩

/-! ## The running interrupt -/

/-- Filled slots have a callback; and a due slot that the running `on_timer_isr` has
passed was filled after it was entered. -/
structure Table (s : Driver) : Prop where
  cb : ∀ i, (s.ds.slots i).id ≠ 0 → (s.ds.slots i).cb ≠ none
  since : s.isr.since ≤ s.calls
  passed : ∀ i, i.val < s.isr.passed → (s.ds.slots i).id ≠ 0 →
    (s.ds.slots i).when ≤ s.isr.now → s.isr.since ≤ (s.ds.slots i).ticket

namespace Table

theorem initial (kind : Kind) (frequencyHz now : Nat) :
    Table (Driver.initial kind frequencyHz now) where
  cb _ hid := absurd rfl hid
  since := Nat.le_refl 0
  passed _ hi := absurd hi (Nat.not_lt_zero _)

/-- Every filled slot was filled before, and the interrupt is where it was. -/
theorem frame (h : Table s) (hslots : ∀ j, (s'.ds.slots j).id ≠ 0 → s'.ds.slots j = s.ds.slots j)
    (hcalls : s.calls ≤ s'.calls) (hisr : s'.isr = s.isr) : Table s' where
  cb j hj := by
    have heq := hslots j hj
    rw [heq] at hj ⊢
    exact h.cb j hj
  since := hisr ▸ h.since.trans hcalls
  passed j hj hid := by
    have heq := hslots j hid
    rw [heq] at hid ⊢
    rw [hisr] at hj ⊢
    exact h.passed j hj hid

theorem move (h : Table s) (hmove : Move kind s l s') : Table s' := by
  cases hmove with
  | refuse => exact h.frame (fun _ _ => rfl) (Nat.le_succ _) rfl
  | @schedule i tp arg cb hcall htp hfree =>
    refine ⟨fun j hj => ?_, h.since.trans (Nat.le_succ _), fun j hj hid hdue => ?_⟩
    · rcases s.ds.fill_slots j with ⟨heq, -⟩ | ⟨heq, -⟩
      · rw [heq] at hj ⊢
        exact h.cb j hj
      · rw [heq]
        exact Option.some_ne_none cb
    · rcases s.ds.fill_slots j with ⟨heq, -⟩ | ⟨heq, -⟩
      · rw [heq] at hid hdue ⊢
        exact h.passed j hj hid hdue
      · rw [heq]
        exact h.since
  | cancel =>
    exact h.frame (fun _ hj => (DriverState.free_filled hj).1) (Nat.le_refl _) rfl
  | cancelNone => exact h.frame (fun _ _ => rfl) (Nat.le_refl _) rfl
  | enter =>
    exact ⟨h.cb, Nat.le_refl _, fun j hj => absurd hj (Nat.not_lt_zero _)⟩
  | @skip now since i hisr hnot =>
    have hpassed := h.passed
    have hsince := h.since
    rw [hisr] at hpassed hsince
    refine ⟨h.cb, hsince, fun j hj hid hdue => ?_⟩
    -- slot `i` itself is not due
    rcases Nat.lt_or_eq_of_le (Nat.le_of_lt_succ hj) with hlt | heq
    · exact hpassed j hlt hid hdue
    · obtain rfl : j = i := Fin.ext heq
      exact absurd hdue (Nat.not_le_of_lt (hnot hid))
  | @fire now since i cb hisr hid hdue hcb =>
    have hpassed := h.passed
    have hsince := h.since
    rw [hisr] at hpassed hsince
    refine ⟨fun j hj => ?_, hsince, fun j hj hid' hdue' => ?_⟩
    · obtain ⟨heq, -⟩ := DriverState.free_filled hj
      rw [heq] at hj ⊢
      exact h.cb j hj
    · obtain ⟨heq, hji⟩ := DriverState.free_filled hid'
      rw [heq] at hid' hdue' ⊢
      rcases Nat.lt_or_eq_of_le (Nat.le_of_lt_succ hj) with hlt | hval
      · exact hpassed j hlt hid' hdue'
      · exact absurd (Fin.ext hval) hji
  | leave => exact ⟨h.cb, Nat.zero_le _, fun j hj => absurd hj (Nat.not_lt_zero _)⟩
  | callbackReturns hisr =>
    have hpassed := h.passed
    have hsince := h.since
    rw [hisr] at hpassed hsince
    exact ⟨h.cb, hsince, hpassed⟩
  | advance => exact h.frame (fun _ _ => rfl) (Nat.le_refl _) rfl
  | start => exact h.frame (fun _ _ => rfl) (Nat.le_refl _) rfl
  | stop hcall hstarted =>
    refine h.frame (fun j _ => ?_) ?_ ?_ <;> simp [Driver.stop, hstarted]
  | stay => exact h

end Table

/-- Fewer than `2 ^ 32 - 1` calls of `schedule_at` are made. -/
def FewCalls (s : Driver) (l : Label) : Prop := l.schedules = true → s.calls + 1 < 2 ^ 32 - 1

instance : Decidable (FewCalls s l) := inferInstanceAs (Decidable (_ → _))

/-- The ids given so far are below the counter, and each was given once. -/
structure Numbered (s : Driver) : Prop where
  pos : 0 < s.ds.nextId
  le : s.ds.nextId ≤ s.calls + 1
  below : ∀ t h tp, .scheduled t h tp ∈ s.log → h.id < s.ds.nextId
  inj : ∀ t u h tp tp', .scheduled t h tp ∈ s.log → .scheduled u h tp' ∈ s.log → h.id ≠ 0 → t = u

namespace Numbered

theorem initial (kind : Kind) (frequencyHz now : Nat) :
    Numbered (Driver.initial kind frequencyHz now) where
  pos := Nat.one_pos
  le := Nat.le_refl _
  below _ _ _ h := absurd h List.not_mem_nil
  inj _ _ _ _ _ h := absurd h List.not_mem_nil

/-- No id is given. -/
theorem frame (h : Numbered s) (hnext : s'.ds.nextId = s.ds.nextId) (hcalls : s.calls ≤ s'.calls)
    (hlog : ∀ t h tp, .scheduled t h tp ∈ s'.log → .scheduled t h tp ∈ s.log ∨ h.id = 0) :
    Numbered s' where
  pos := hnext ▸ h.pos
  le := by
    have := h.le
    omega
  below t h' tp ht := by
    rcases hlog t h' tp ht with ht | hzero
    · exact hnext ▸ h.below t h' tp ht
    · rw [hzero, hnext]
      exact h.pos
  inj t u h' tp tp' ht hu hid := by
    rcases hlog t h' tp ht with ht | hzero
    · rcases hlog u h' tp' hu with hu | hzero
      · exact h.inj t u h' tp tp' ht hu hid
      · exact absurd hzero hid
    · exact absurd hzero hid

/-- Before the counter wraps, the next id is the counter. -/
theorem takeId_eq (h : Numbered s) (hfew : s.calls + 1 < 2 ^ 32 - 1) :
    takeId s.ds.nextId = (s.ds.nextId, s.ds.nextId + 1) := by
  have hpos := h.pos
  have hle := h.le
  rw [takeId, if_neg (by omega), Nat.mod_eq_of_lt (by omega)]

theorem move (h : Numbered s) (hmove : Move kind s l s') (hfew : FewCalls s l) :
    Numbered s' := by
  cases hmove with
  | refuse =>
    refine h.frame rfl (Nat.le_succ _) fun t h' tp ht => ?_
    rcases List.mem_append.mp ht with ht | ht
    · exact .inl ht
    · cases List.mem_singleton.mp ht
      exact .inr rfl
  | @schedule i tp arg cb hcall htp hfree =>
    have hid := h.takeId_eq (hfew rfl)
    have hpos := h.pos
    have hle := h.le
    have hnext : (s.ds.fill i s.calls tp cb arg).nextId = s.ds.nextId + 1 := by
      show (takeId s.ds.nextId).2 = _
      rw [hid]
    have hmem : ∀ {t h' tp'}, .scheduled t h' tp' ∈
        s.log ++ [.scheduled s.calls ⟨(takeId s.ds.nextId).1⟩ tp] →
        .scheduled t h' tp' ∈ s.log ∨ t = s.calls ∧ h'.id = s.ds.nextId := by
      intro t h' tp' ht
      rcases List.mem_append.mp ht with ht | ht
      · exact .inl ht
      · cases List.mem_singleton.mp ht
        exact .inr ⟨rfl, by rw [hid]⟩
    refine ⟨?_, ?_, ?_, ?_⟩
    · show 0 < (s.ds.fill i s.calls tp cb arg).nextId
      omega
    · show (s.ds.fill i s.calls tp cb arg).nextId ≤ s.calls + 1 + 1
      omega
    · intro t h' tp' ht
      show h'.id < (s.ds.fill i s.calls tp cb arg).nextId
      rcases hmem ht with ht | ⟨-, heq⟩
      · have := h.below t h' tp' ht
        omega
      · omega
    · intro t u h' tp₁ tp₂ ht hu hne
      rcases hmem ht with ht | ⟨rfl, heq⟩ <;> rcases hmem hu with hu | ⟨rfl, heq'⟩
      · exact h.inj t u h' tp₁ tp₂ ht hu hne
      · exact absurd (h.below t h' tp₁ ht) (by omega)
      · exact absurd (h.below u h' tp₂ hu) (by omega)
      · rfl
  | cancel | cancelNone | enter => exact h.frame rfl (Nat.le_refl _) (by simp +contextual)
  | skip => exact h.frame rfl (Nat.le_refl _) fun _ _ _ ht => .inl ht
  | fire => exact h.frame rfl (Nat.le_refl _) (by simp +contextual)
  | leave => exact h.frame rfl (Nat.le_refl _) (by simp +contextual)
  | callbackReturns | advance | start => exact h.frame rfl (Nat.le_refl _) fun _ _ _ ht => .inl ht
  | stop hcall hstarted => refine h.frame ?_ ?_ ?_ <;> simp +contextual [Driver.stop, hstarted]
  | stay => exact h

end Numbered

/-! ## What clients may rely on -/

end Cortos.Time
