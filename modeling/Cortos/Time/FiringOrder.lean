import Cortos.Time.Conversion
import Cortos.Time.Equivalence
import Cortos.Time.HandleIds

/-!
# The order in which due callbacks are started

One `on_timer_isr` starts every callback whose deadline has passed. The periodic and the
tickless driver go through their table, the simulation driver through its vector, and none of
them looks at the deadlines to choose what comes next.

- `Interface.interrupted`: one `on_timer_isr` whose callbacks do not call the driver.
- `Slot.started`, `SimEvent.started`: the callback of a slot or of an event in the record.
- `serve_slots`, `serve_events`: the record that the interrupt adds, entry by entry.
- `FiredInOrder`: the deadlines of the calls of `schedule_at` whose callbacks have been
  started do not decrease.
- `deadline_order_iff`: they do not exactly if the due slots, or events, stand in this order
  in the table, or in the vector.
-/

namespace Cortos.Time

open Lib

/-! ## One interrupt -/

/-- `on_timer_isr`, with at most `n` steps; no callback calls the driver. -/
def Interface.interrupted {σ : Type} (D : Interface σ) (n : Nat) (s : σ) :
    Except DriverFault σ :=
  (D.step s .interrupt).bind (D.serve n)

/-- The periodic or the tickless driver. -/
def slotInterface (kind : Kind) : Interface Driver :=
  { periodicInterface with step := Driver.step kind }

theorem Interface.interrupted_ok {σ : Type} {D : Interface σ} {n : Nat} {s s₁ s' : σ}
    (hstep : D.step s .interrupt = .ok s₁) (hserve : D.serve n s₁ = .ok s') :
    D.interrupted n s = .ok s' := by
  rw [interrupted, hstep, ← hserve, Except.bind]

theorem slotInterface_scanning (kind : Kind) {d : Driver} {now since i : Nat}
    (hisr : d.isr = .scanning now since i) : (slotInterface kind).handler d = some .scan :=
  periodicInterface_scanning hisr

/-! ## The order of the record -/

/-- `tp` is a deadline of the call whose callback the entry starts. -/
def Event.DueAt (log : List Event) (tp : Nat) : Event → Prop
  | .invoked t _ _ _ => ∃ h, .scheduled t h tp ∈ log
  | _ => False

/-- The callbacks that the entries start were scheduled for deadlines that do not
decrease. -/
def FiredInOrder (log es : List Event) : Prop :=
  es.Pairwise fun e e' => ∀ tp tp', e.DueAt log tp → e'.DueAt log tp' → tp ≤ tp'

/-- The record of an `on_timer_isr` that starts the callbacks of `xs`, where the record says
of each of them what its deadline is. -/
theorem firedInOrder_iff {α : Type} {log : List Event} (now : Nat) {xs : List α}
    {started : α → Option Event} {deadline : α → Nat}
    (hxs : ∀ x ∈ xs, ∃ e, started x = some e ∧ ∀ tp, e.DueAt log tp ↔ tp = deadline x) :
    FiredInOrder log (.entered now :: xs.filterMap started ++ [.returned]) ↔
      xs.Pairwise fun x y => deadline x ≤ deadline y := by
  unfold FiredInOrder
  rw [List.cons_append, List.pairwise_cons, List.pairwise_append, List.pairwise_filterMap]
  constructor
  · rintro ⟨-, hpair, -⟩
    refine hpair.imp_of_mem fun {x y} hx hy hxy => ?_
    obtain ⟨e, he, hdue⟩ := hxs x hx
    obtain ⟨e', he', hdue'⟩ := hxs y hy
    exact hxy e he e' he' _ _ ((hdue _).mpr rfl) ((hdue' _).mpr rfl)
  · intro hpair
    refine ⟨fun _ _ _ _ hfirst => hfirst.elim, ?_, List.pairwise_singleton _ _, ?_⟩
    · refine hpair.imp_of_mem fun {x y} hx hy hxy e he e' he' tp tp' htp htp' => ?_
      obtain ⟨e₁, he₁, hdue⟩ := hxs x hx
      obtain ⟨e₂, he₂, hdue'⟩ := hxs y hy
      cases he.symm.trans he₁
      cases he'.symm.trans he₂
      rw [(hdue tp).mp htp, (hdue' tp').mp htp']
      exact hxy
    · rintro e - e' he' tp tp' - hlast
      cases List.mem_singleton.mp he'
      exact hlast.elim

/-! ## The slot drivers -/

/-- The callback of the slot, started by an `on_timer_isr` of time `now`. -/
def Slot.started (now : Nat) (slot : Slot) : Option Event :=
  slot.cb.map fun cb => .invoked slot.ticket cb slot.arg now

/-- The slots from slot `i` on that an `on_timer_isr` of time `now` finds due, in the order of
the table. -/
def DriverState.dueFrom (ds : DriverState) (now i : Nat) : List Slot :=
  (((List.finRange maxScheduledCallbacks).drop i).map ds.slots).filter fun slot =>
    slot.id ≠ 0 ∧ slot.when ≤ now

/-- The due slots. -/
def DriverState.dueSlots (ds : DriverState) (now : Nat) : List Slot := ds.dueFrom now 0

namespace DriverState

variable {ds : DriverState} {now i : Nat}

theorem dueFrom_end (hi : maxScheduledCallbacks ≤ i) : ds.dueFrom now i = [] := by
  rw [dueFrom, List.drop_eq_nil_of_le (by rwa [List.length_finRange])]
  rfl

theorem drop_finRange (hi : i < maxScheduledCallbacks) :
    (List.finRange maxScheduledCallbacks).drop i =
      ⟨i, hi⟩ :: (List.finRange maxScheduledCallbacks).drop (i + 1) := by
  rw [List.drop_eq_getElem_cons (by rwa [List.length_finRange]), List.getElem_finRange]
  rfl

theorem dueFrom_due (hi : i < maxScheduledCallbacks)
    (hdue : (ds.slots ⟨i, hi⟩).id ≠ 0 ∧ (ds.slots ⟨i, hi⟩).when ≤ now) :
    ds.dueFrom now i = ds.slots ⟨i, hi⟩ :: ds.dueFrom now (i + 1) := by
  rw [dueFrom, drop_finRange hi, List.map_cons,
    List.filter_cons_of_pos (by rw [decide_eq_true_eq]; exact hdue)]
  rfl

theorem dueFrom_skip (hi : i < maxScheduledCallbacks)
    (hdue : ¬ ((ds.slots ⟨i, hi⟩).id ≠ 0 ∧ (ds.slots ⟨i, hi⟩).when ≤ now)) :
    ds.dueFrom now i = ds.dueFrom now (i + 1) := by
  rw [dueFrom, drop_finRange hi, List.map_cons,
    List.filter_cons_of_neg (by rw [decide_eq_true_eq]; exact hdue)]
  rfl

/-- Freeing slot `i` does not change what comes after it. -/
theorem dueFrom_free (hi : i < maxScheduledCallbacks) :
    (ds.setSlot ⟨i, hi⟩ {}).dueFrom now (i + 1) = ds.dueFrom now (i + 1) := by
  unfold dueFrom
  refine congrArg _ (List.map_congr_left fun j hj => setSlot_of_ne ?_)
  obtain ⟨k, hk, rfl⟩ := List.mem_drop_iff_getElem.mp hj
  rw [List.getElem_finRange]
  intro heq
  have hval := congrArg Fin.val heq
  simp only [Fin.val_cast] at hval
  omega

theorem mem_dueFrom {slot : Slot} (h : slot ∈ ds.dueFrom now i) :
    ∃ j, ds.slots j = slot ∧ slot.id ≠ 0 := by
  obtain ⟨hmem, hdue⟩ := List.mem_filter.mp h
  obtain ⟨j, -, hj⟩ := List.mem_map.mp hmem
  exact ⟨j, hj, (of_decide_eq_true hdue).1⟩

end DriverState

/-- **`fire_due_isr` as a whole**: from slot `i` on it starts the due slots in the order of
the table. -/
theorem serve_slots (kind : Kind) (now since m : Nat) : ∀ {d : Driver} {i n : Nat},
    i + m = maxScheduledCallbacks → 2 * m + 2 ≤ n → d.isr = .scanning now since i →
    d.ds.Paired → ∃ d', (slotInterface kind).serve n d = .ok d' ∧ d'.isr = .idle ∧
      d'.log = d.log ++ ((d.ds.dueFrom now i).filterMap (Slot.started now) ++ [.returned]) := by
  induction m with
  | zero =>
    intro d i n hi hn hisr hpaired
    obtain ⟨n, rfl⟩ : ∃ k, n = k + 2 := ⟨n - 2, by omega⟩
    have hstep : d.step kind .scan = .ok { d with
        port := d.ds.rearm kind d.port, isr := .idle, log := d.log ++ [.returned] } := by
      simp only [Driver.step, hisr, dif_neg (show ¬ i < maxScheduledCallbacks by omega)]
    refine ⟨{ d with port := d.ds.rearm kind d.port, isr := .idle, log := d.log ++ [.returned] },
      ?_, rfl, ?_⟩
    · rw [Interface.serve_step (slotInterface_scanning kind hisr) hstep]
      exact Interface.serve_idle rfl
    · rw [DriverState.dueFrom_end (by omega)]
      rfl
  | succ m ih =>
    intro d i n hi hn hisr hpaired
    have hlt : i < maxScheduledCallbacks := by omega
    by_cases hdue : (d.ds.slots ⟨i, hlt⟩).id ≠ 0 ∧ (d.ds.slots ⟨i, hlt⟩).when ≤ now
    · -- the slot is freed, its callback runs and returns
      obtain ⟨n, rfl⟩ : ∃ k, n = k + 2 := ⟨n - 2, by omega⟩
      obtain ⟨cb, hcb⟩ : ∃ cb, (d.ds.slots ⟨i, hlt⟩).cb = some cb :=
        Option.ne_none_iff_exists'.mp ((hpaired ⟨i, hlt⟩).not.mpr hdue.1)
      have hstarted : (d.ds.slots ⟨i, hlt⟩).started now = some (.invoked
          (d.ds.slots ⟨i, hlt⟩).ticket cb (d.ds.slots ⟨i, hlt⟩).arg now) := by
        rw [Slot.started, hcb]
        rfl
      have hstep : d.step kind .scan = .ok { d with
          ds := d.ds.setSlot ⟨i, hlt⟩ {}
          isr := .callback now since i
          log := d.log ++ [.invoked (d.ds.slots ⟨i, hlt⟩).ticket cb
            (d.ds.slots ⟨i, hlt⟩).arg now] } := by
        simp only [Driver.step, hisr, dif_pos hlt, Driver.visit, if_pos hdue, hcb]
      obtain ⟨d', hserve, hidle, hlog⟩ := ih (i := i + 1) (n := n) (d := { d with
          ds := d.ds.setSlot ⟨i, hlt⟩ {}
          isr := .scanning now since (i + 1)
          log := d.log ++ [.invoked (d.ds.slots ⟨i, hlt⟩).ticket cb
            (d.ds.slots ⟨i, hlt⟩).arg now] })
        (by omega) (by omega) rfl (hpaired.free _)
      refine ⟨d', ?_, hidle, ?_⟩
      · rw [Interface.serve_step (slotInterface_scanning kind hisr) hstep,
          Interface.serve_step (l := .callbackReturns) rfl rfl, hserve]
      · rw [hlog, DriverState.dueFrom_free hlt, DriverState.dueFrom_due hlt hdue,
          List.filterMap_cons_some hstarted, List.append_assoc]
        rfl
    · -- the slot is passed over
      obtain ⟨n, rfl⟩ : ∃ k, n = k + 1 := ⟨n - 1, by omega⟩
      have hstep : d.step kind .scan = .ok { d with isr := .scanning now since (i + 1) } := by
        simp only [Driver.step, hisr, dif_pos hlt, Driver.visit, if_neg hdue]
      obtain ⟨d', hserve, hidle, hlog⟩ := ih (i := i + 1) (n := n)
        (d := { d with isr := .scanning now since (i + 1) }) (by omega) (by omega) rfl hpaired
      refine ⟨d', ?_, hidle, ?_⟩
      · rw [Interface.serve_step (slotInterface_scanning kind hisr) hstep, hserve]
      · rw [hlog, DriverState.dueFrom_skip hlt hdue]

theorem DriverState.Paired.reach {kind : Kind} {frequencyHz : Nat} {s : Driver}
    (h : (slotSystem kind frequencyHz).ReachVia (fun _ _ => True) s) : s.ds.Paired := by
  refine Lts.ReachVia.invariant (I := fun s => s.ds.Paired) ?_ ?_ h
  · rintro s ⟨now, -, rfl⟩
    exact fun _ => iff_of_true rfl rfl
  · exact fun s l s' _ hs _ hstep => (Driver.book_step hs hstep).1

/-- What the record says of the slots that are due. -/
theorem Punctual.dueAt {s : Driver} (h : Punctual s) (hpaired : s.ds.Paired) {now : Nat}
    {slot : Slot} (hslot : slot ∈ s.ds.dueSlots now) :
    ∃ e, slot.started now = some e ∧ ∀ tp, e.DueAt s.log tp ↔ tp = slot.when := by
  obtain ⟨j, rfl, hid⟩ := DriverState.mem_dueFrom hslot
  obtain ⟨cb, hcb⟩ : ∃ cb, (s.ds.slots j).cb = some cb :=
    Option.ne_none_iff_exists'.mp ((hpaired j).not.mpr hid)
  refine ⟨.invoked (s.ds.slots j).ticket cb (s.ds.slots j).arg now, ?_, fun tp => ?_⟩
  · rw [Slot.started, hcb]
    rfl
  · obtain ⟨h₁, hscheduled⟩ := h.slot j hid
    constructor
    · rintro ⟨h₂, hother⟩
      exact h.unique _ _ _ _ _ hother hscheduled
    · rintro rfl
      exact ⟨h₁, hscheduled⟩

/-! ## The simulation driver -/

/-- The events that an `on_timer_isr` of time `now` copies, in the order of the vector. -/
def SimState.dueEvents (ds : SimState) (now : Nat) : List SimEvent :=
  ds.events.filter fun e => e.due now

/-- What the record says of the deadlines of the simulation driver's events. -/
structure SimPunctual (s : Sim) : Prop where
  ticket : ∀ t h tp, .scheduled t h tp ∈ s.log → t < s.calls
  unique : ∀ t h tp h' tp', .scheduled t h tp ∈ s.log → .scheduled t h' tp' ∈ s.log → tp = tp'
  event : ∀ e ∈ s.ds.events, e.cb ≠ none ∧ ∃ h, .scheduled e.ticket h e.when ∈ s.log

namespace SimPunctual

variable {s s' : Sim} {l : Label}

theorem initial (frequencyHz : Nat) : SimPunctual (Sim.initial frequencyHz) where
  ticket _ _ _ h := absurd h List.not_mem_nil
  unique _ _ _ _ _ h := absurd h List.not_mem_nil
  event _ h := absurd h List.not_mem_nil

/-- Steps that do not schedule: every event is one of those before, perhaps marked. -/
theorem frame (h : SimPunctual s) (hcalls : s'.calls = s.calls)
    (hevents : ∀ e ∈ s'.ds.events, ∃ e₀ ∈ s.ds.events,
      e.cb = e₀.cb ∧ e.ticket = e₀.ticket ∧ e.when = e₀.when)
    (hscheduled : ∀ {t h tp}, .scheduled t h tp ∈ s'.log ↔ .scheduled t h tp ∈ s.log) :
    SimPunctual s' where
  ticket t h' tp ht := hcalls ▸ h.ticket t h' tp (hscheduled.mp ht)
  unique t h₁ tp₁ h₂ tp₂ h₁' h₂' :=
    h.unique t h₁ tp₁ h₂ tp₂ (hscheduled.mp h₁') (hscheduled.mp h₂')
  event e he := by
    obtain ⟨e₀, he₀, hcb, hticket, hwhen⟩ := hevents e he
    obtain ⟨hsome, h', hin⟩ := h.event e₀ he₀
    rw [hcb, hticket, hwhen]
    exact ⟨hsome, h', hscheduled.mpr hin⟩

theorem schedule (h : SimPunctual s) (tp : Nat) (cb : Option Callback) (arg : Nat) :
    SimPunctual (s.scheduleAt tp cb arg) := by
  have hmem : ∀ {t h₁ tp₁}, .scheduled t h₁ tp₁ ∈ (s.scheduleAt tp cb arg).log ↔
      .scheduled t h₁ tp₁ ∈ s.log ∨
        t = s.calls ∧ h₁ = (s.ds.scheduleAt s.calls tp cb arg).1 ∧ tp₁ = tp := by
    intro t h₁ tp₁
    simp [Sim.scheduleAt]
  obtain ⟨hticket, hunique⟩ := tickets_append h.ticket h.unique
    (s.ds.scheduleAt s.calls tp cb arg).1 tp
  constructor
  case ticket => exact hticket
  case unique => exact hunique
  case event =>
    intro e he
    have hkeep : e ∈ s.ds.events → e.cb ≠ none ∧
        ∃ h', .scheduled e.ticket h' e.when ∈ (s.scheduleAt tp cb arg).log := fun hin =>
      (h.event e hin).imp_right fun hs => hs.imp fun _ hs => hmem.mpr (.inl hs)
    cases cb with
    | none => exact hkeep he
    | some cb =>
      rcases List.mem_append.mp he with hin | hnew
      · exact hkeep hin
      · cases List.mem_singleton.mp hnew
        exact ⟨Option.some_ne_none cb, _, hmem.mpr (.inr ⟨rfl, rfl, rfl⟩)⟩

/-- `cancel` marks an event. -/
theorem mem_cancelFirst {id : Nat} {es : List SimEvent} {e : SimEvent}
    (he : e ∈ (SimState.cancelFirst id es).2) :
    ∃ e₀ ∈ es, e.cb = e₀.cb ∧ e.ticket = e₀.ticket ∧ e.when = e₀.when := by
  induction es with
  | nil => exact absurd he List.not_mem_nil
  | cons e₁ es ih =>
    unfold SimState.cancelFirst at he
    split at he
    · rcases List.mem_cons.mp he with rfl | hin
      · exact ⟨e₁, List.mem_cons_self, rfl, rfl, rfl⟩
      · exact ⟨e, List.mem_cons_of_mem _ hin, rfl, rfl, rfl⟩
    · rcases List.mem_cons.mp he with rfl | hin
      · exact ⟨e, List.mem_cons_self, rfl, rfl, rfl⟩
      · obtain ⟨e₀, he₀, hsame⟩ := ih hin
        exact ⟨e₀, List.mem_cons_of_mem _ he₀, hsame⟩

theorem step (h : SimPunctual s) (hstep : s.step l = .ok s') : SimPunctual s' := by
  have hsame : ∀ {es : List SimEvent}, (∀ e ∈ es, e ∈ s.ds.events) → ∀ e ∈ es,
      ∃ e₀ ∈ s.ds.events, e.cb = e₀.cb ∧ e.ticket = e₀.ticket ∧ e.when = e₀.when :=
    fun hsub e he => ⟨e, hsub e he, rfl, rfl, rfl⟩
  cases Sim.step_move hstep with
  | @refuse tp arg => exact h.schedule tp none arg
  | @schedule tp arg cb => exact h.schedule tp (some cb) arg
  | @cancel h' =>
    refine h.frame rfl ?_ (by simp [Sim.cancel])
    by_cases hid : h'.id = 0
    · simp only [Sim.cancel, SimState.cancel, if_pos hid]
      exact hsame fun _ he => he
    · simp only [Sim.cancel, SimState.cancel, if_neg hid]
      exact fun e he => mem_cancelFirst he
  | enter =>
    exact h.frame rfl (hsame fun e he => List.mem_of_mem_filter he) (by simp [Sim.enter])
  | fire | leave => exact h.frame rfl (hsame fun _ he => he) (by simp)
  | skip | callbackReturns | advance | start | stop =>
    exact h.frame rfl (hsame fun _ he => he) Iff.rfl

theorem reach {frequencyHz : Nat}
    (h : (simSystem frequencyHz).ReachVia (fun _ _ => True) s) : SimPunctual s := by
  refine Lts.ReachVia.invariant (I := SimPunctual) ?_ ?_ h
  · rintro s rfl
    exact .initial frequencyHz
  · exact fun s l s' _ hs _ hstep => hs.step hstep

/-- What the record says of the events that are due. -/
theorem dueAt (h : SimPunctual s) {now : Nat} {e : SimEvent} (he : e ∈ s.ds.dueEvents now) :
    ∃ ev, e.started now = some ev ∧ ∀ tp, ev.DueAt s.log tp ↔ tp = e.when := by
  obtain ⟨hcb, h₁, hscheduled⟩ := h.event e (List.mem_of_mem_filter he)
  obtain ⟨cb, hcb⟩ := Option.ne_none_iff_exists'.mp hcb
  refine ⟨.invoked e.ticket cb e.arg now, by rw [SimEvent.started, hcb]; rfl, fun tp => ?_⟩
  constructor
  · rintro ⟨h₂, hother⟩
    exact h.unique _ _ _ _ _ hother hscheduled
  · rintro rfl
    exact ⟨h₁, hscheduled⟩

end SimPunctual

/-! ## The result -/

theorem slot_order {kind : Kind} {frequencyHz : Nat} {d : Driver}
    (hd : (slotSystem kind frequencyHz).ReachVia (fun _ _ => True) d) (hidle : d.isr = .idle) :
    ∃ d' es, (slotInterface kind).interrupted handlerSteps d = .ok d' ∧ d'.isr = .idle ∧
      d'.log = d.log ++ es ∧ (FiredInOrder d.log es ↔
        (d.ds.dueSlots d.port.now).Pairwise fun x y => x.when ≤ y.when) := by
  have hpaired := DriverState.Paired.reach hd
  have hpunctual := Punctual.reach hd
  have hstep : d.step kind .interrupt = .ok { d with
      isr := .scanning d.port.now d.calls 0, log := d.log ++ [.entered d.port.now] } :=
    if_pos hidle
  obtain ⟨d', hserve, hidle', hlog⟩ := serve_slots kind d.port.now d.calls
    maxScheduledCallbacks (n := handlerSteps) (d := { d with
      isr := .scanning d.port.now d.calls 0, log := d.log ++ [.entered d.port.now] })
    (Nat.zero_add _) (Nat.le_refl _) rfl hpaired
  refine ⟨d', _, Interface.interrupted_ok hstep hserve, hidle', ?_,
    firedInOrder_iff d.port.now fun slot hslot => hpunctual.dueAt hpaired hslot⟩
  · rw [hlog, List.append_assoc, List.singleton_append, List.cons_append]
    rfl

theorem event_order {frequencyHz : Nat} {s : Sim}
    (hs : (simSystem frequencyHz).ReachVia (fun _ _ => True) s) (hidle : s.isr = .idle) :
    ∃ s' es n, simInterface.interrupted n s = .ok s' ∧ s'.isr = .idle ∧
      s'.log = s.log ++ es ∧ (FiredInOrder s.log es ↔
        (s.ds.dueEvents s.ds.virtualNow).Pairwise fun x y => x.when ≤ y.when) := by
  have hpunctual := SimPunctual.reach hs
  have hstep : s.step .interrupt = .ok s.enter := if_pos hidle
  obtain ⟨s', hserve, hidle', -, hlog⟩ := serve_events s.ds.virtualNow
    (s.ds.dueEvents s.ds.virtualNow) (s := s.enter) (Nat.le_refl _) rfl
  refine ⟨s', _, _, Interface.interrupted_ok hstep hserve, hidle', ?_,
    firedInOrder_iff s.ds.virtualNow fun e he => hpunctual.dueAt he⟩
  · have henter : s.enter.log = s.log ++ [.entered s.ds.virtualNow] := rfl
    rw [hlog, henter, List.append_assoc, List.singleton_append, List.cons_append]

/-- **In which order the drivers fire.** After any history of calls, interrupts and advances
of the time, one `on_timer_isr` whose callbacks do not call the driver returns, and the
callbacks it has started were scheduled for deadlines that do not decrease if and only if:
for the periodic and the tickless driver, the due slots are sorted by deadline in the order
of the table; for the simulation driver, the due events are sorted by deadline in the order
in which they were scheduled. -/
theorem deadline_order_iff {kind : Kind} {frequencyHz : Nat} {d : Driver} {s : Sim}
    (hd : (slotSystem kind frequencyHz).ReachVia (fun _ _ => True) d) (hidle : d.isr = .idle)
    (hs : (simSystem frequencyHz).ReachVia (fun _ _ => True) s) (hidle' : s.isr = .idle) :
    (∃ d' es, (slotInterface kind).interrupted handlerSteps d = .ok d' ∧ d'.isr = .idle ∧
      d'.log = d.log ++ es ∧ (FiredInOrder d.log es ↔
        (d.ds.dueSlots d.port.now).Pairwise fun x y => x.when ≤ y.when)) ∧
    ∃ s' es n, simInterface.interrupted n s = .ok s' ∧ s'.isr = .idle ∧
      s'.log = s.log ++ es ∧ (FiredInOrder s.log es ↔
        (s.ds.dueEvents s.ds.virtualNow).Pairwise fun x y => x.when ≤ y.when) :=
  ⟨slot_order hd hidle, event_order hs hidle'⟩

/-- Two callbacks, the second with the earlier deadline; then the time passes both. -/
def laterFirst : List Label :=
  [.scheduleAt 20 (some 0) 7, .scheduleAt 10 (some 1) 8, .advance 30]

/-- Two callbacks in the order of their deadlines; then the time passes both. -/
def earlierFirst : List Label :=
  [.scheduleAt 10 (some 0) 7, .scheduleAt 20 (some 1) 8, .advance 30]

/-- Callbacks that were scheduled in the order of their deadlines are started in it. -/
theorem earlier_first_in_order :
    (∃ d d' es, (slotInterface .tickless).interrupted handlerSteps d = .ok d' ∧
      d'.log = d.log ++ es ∧ (d.ds.dueSlots d.port.now).length = 2 ∧ FiredInOrder d.log es) ∧
    ∃ s s' es n, simInterface.interrupted n s = .ok s' ∧ s'.log = s.log ++ es ∧
      (s.ds.dueEvents s.ds.virtualNow).length = 2 ∧ FiredInOrder s.log es := by
  have hinit : (slotSystem .tickless 1000).ReachVia (fun _ _ => True)
      (Driver.initial .tickless 1000 0) := .init ⟨0, by decide, rfl⟩
  have hrun : (slotSystem .tickless 1000).runsTo (fun _ _ => True)
      (fun d => d.isr = .idle ∧ (d.ds.dueSlots d.port.now).length = 2 ∧
        (d.ds.dueSlots d.port.now).Pairwise fun x y => x.when ≤ y.when)
      (Driver.initial .tickless 1000 0) earlierFirst = true := by
    decide +kernel
  obtain ⟨d, hd, hidle, hlen, hsorted⟩ := hinit.runsTo hrun
  have hinit' : (simSystem 1000).ReachVia (fun _ _ => True) (Sim.initial 1000) := .init rfl
  have hrun' : (simSystem 1000).runsTo (fun _ _ => True)
      (fun s => s.isr = .idle ∧ (s.ds.dueEvents s.ds.virtualNow).length = 2 ∧
        (s.ds.dueEvents s.ds.virtualNow).Pairwise fun x y => x.when ≤ y.when)
      (Sim.initial 1000) earlierFirst = true := by
    decide +kernel
  obtain ⟨s, hs, hidle', hlen', hsorted'⟩ := hinit'.runsTo hrun'
  obtain ⟨⟨d', es, hok, -, hlog, hiff⟩, s', es', n, hok', -, hlog', hiff'⟩ :=
    deadline_order_iff hd hidle hs hidle'
  exact ⟨⟨d, d', es, hok, hlog, hlen, hiff.mpr hsorted⟩,
    s, s', es', n, hok', hlog', hlen', hiff'.mpr hsorted'⟩

/-- **The later deadline fires first.** A callback for time 20 is scheduled before one for
time 10. When the time jumps to 30 all three drivers start the one for 20 first. -/
theorem later_deadline_first :
    (∀ kind : Kind, (slotSystem kind 1000).runsTo (fun _ _ => True)
      (fun d => d.log = [.scheduled 0 ⟨1⟩ 20, .scheduled 1 ⟨2⟩ 10, .entered 30,
        .invoked 0 0 7 30, .invoked 1 1 8 30])
      (Driver.initial kind 1000 0)
      (laterFirst ++ [.interrupt, .scan, .callbackReturns, .scan]) = true) ∧
    (simSystem 1000).runsTo (fun _ _ => True)
      (fun s => s.log = [.scheduled 0 ⟨1⟩ 20, .scheduled 1 ⟨2⟩ 10, .entered 30,
        .invoked 0 0 7 30, .invoked 1 1 8 30])
      (Sim.initial 1000) (laterFirst ++ [.interrupt, .scan, .callbackReturns, .scan]) = true := by
  refine ⟨fun kind => ?_, by decide +kernel⟩
  cases kind with
  | periodic => decide +kernel
  | tickless => decide +kernel

end Cortos.Time
