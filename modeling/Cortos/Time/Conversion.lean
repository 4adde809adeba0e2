import Cortos.Lib.Rounding
import Cortos.Time.SlotDriver

/-!
# Durations in ticks

`from_milliseconds` and `from_microseconds` round up, "so that non-zero durations do
not undersleep". The ticks they return are added to `now()` and compared with the
port's counter, which runs at `cortos_port_time_freq_hz()`.

- The periodic driver converts with the port's frequency, a `uint64_t`: the product
  with the argument can wrap.
- The tickless driver converts with the frequency passed to `initialise`, a `uint32_t`:
  the product does not wrap, but the ticks are those of another clock if the two
  frequencies differ.

`no_undersleep_iff` says for each driver and each argument when a callback is never
started too early.
-/

namespace Cortos.Time

open Lib

variable {kind : Kind} {s s' : Driver} {l : Label}

/-! ## The conversions -/

/-- `ceil_div_u64`. -/
def ceilDivU64 (a b : Nat) : Nat := (a + b - 1) % 2 ^ 64 / b

/-- The frequency that a driver converts with; `portHz` is
`cortos_port_time_freq_hz()`. -/
def DriverState.conversionHz (ds : DriverState) (portHz : Nat) : Kind → Nat
  | .periodic => portHz
  | .tickless => ds.frequencyHz

/-- The conversion of `x` units of which a second has `perSecond`. -/
def DriverState.ticks (ds : DriverState) (kind : Kind) (portHz perSecond x : Nat) : Nat :=
  ceilDivU64 (x * ds.conversionHz portHz kind % 2 ^ 64) perSecond

/-- `from_milliseconds`. -/
def DriverState.fromMilliseconds (ds : DriverState) (kind : Kind) (portHz ms : Nat) : Nat :=
  ds.ticks kind portHz 1000 ms

/-- `from_microseconds`. -/
def DriverState.fromMicroseconds (ds : DriverState) (kind : Kind) (portHz us : Nat) : Nat :=
  ds.ticks kind portHz 1000000 us

/-! ## A callback is not started before its deadline -/

/-- What the record says about deadlines. Unlike the promises of a driver with few
calls, it does not depend on the ids. -/
structure Punctual (s : Driver) : Prop where
  ticket : ∀ t h tp, .scheduled t h tp ∈ s.log → t < s.calls
  unique : ∀ t h tp h' tp', .scheduled t h tp ∈ s.log → .scheduled t h' tp' ∈ s.log → tp = tp'
  slot : ∀ i, (s.ds.slots i).id ≠ 0 →
    ∃ h, .scheduled (s.ds.slots i).ticket h (s.ds.slots i).when ∈ s.log
  invoked : ∀ t cb arg now, .invoked t cb arg now ∈ s.log →
    ∃ h tp, .scheduled t h tp ∈ s.log ∧ tp ≤ now

/-- Calls of `schedule_at` are numbered: the next one has a ticket of its own, and so each
ticket one deadline. -/
theorem tickets_append {log : List Event} {calls : Nat}
    (hticket : ∀ t h tp, .scheduled t h tp ∈ log → t < calls)
    (hunique : ∀ t h tp h' tp', .scheduled t h tp ∈ log → .scheduled t h' tp' ∈ log → tp = tp')
    (new : Handle) (deadline : Nat) :
    (∀ t h tp, .scheduled t h tp ∈ log ++ [.scheduled calls new deadline] → t < calls + 1) ∧
    ∀ t h tp h' tp', .scheduled t h tp ∈ log ++ [.scheduled calls new deadline] →
      .scheduled t h' tp' ∈ log ++ [.scheduled calls new deadline] → tp = tp' := by
  have hmem : ∀ {t h tp}, .scheduled t h tp ∈ log ++ [.scheduled calls new deadline] →
      .scheduled t h tp ∈ log ∨ t = calls ∧ tp = deadline := by
    intro t h tp ht
    rcases List.mem_append.mp ht with hold | hnew
    · exact .inl hold
    · cases List.mem_singleton.mp hnew
      exact .inr ⟨rfl, rfl⟩
  constructor
  · intro t h tp ht
    rcases hmem ht with hold | ⟨rfl, -⟩
    · exact Nat.lt_succ_of_lt (hticket t h tp hold)
    · exact Nat.lt_succ_self _
  · intro t h tp h' tp' ht ht'
    rcases hmem ht with hold | ⟨hnew, htp⟩ <;> rcases hmem ht' with hold' | ⟨hnew', htp'⟩
    · exact hunique t h tp h' tp' hold hold'
    · exact absurd hnew' (Nat.ne_of_lt (hticket t h tp hold))
    · exact absurd hnew (Nat.ne_of_lt (hticket t h' tp' hold'))
    · rw [htp, htp']

namespace Punctual

theorem initial (kind : Kind) (frequencyHz now : Nat) :
    Punctual (Driver.initial kind frequencyHz now) where
  ticket _ _ _ h := absurd h List.not_mem_nil
  unique _ _ _ _ _ h := absurd h List.not_mem_nil
  slot _ h := absurd rfl h
  invoked _ _ _ _ h := absurd h List.not_mem_nil

/-- Steps that neither schedule nor start a callback: slots may be freed. -/
theorem frame (h : Punctual s) (hcalls : s'.calls = s.calls)
    (hslots : ∀ i, (s'.ds.slots i).id ≠ 0 → s'.ds.slots i = s.ds.slots i)
    (hscheduled : ∀ {t h tp}, .scheduled t h tp ∈ s'.log ↔ .scheduled t h tp ∈ s.log)
    (hinvoked : ∀ {t cb arg now}, .invoked t cb arg now ∈ s'.log → .invoked t cb arg now ∈ s.log) :
    Punctual s' where
  ticket t h' tp ht := hcalls ▸ h.ticket t h' tp (hscheduled.mp ht)
  unique t h₁ tp₁ h₂ tp₂ h₁' h₂' :=
    h.unique t h₁ tp₁ h₂ tp₂ (hscheduled.mp h₁') (hscheduled.mp h₂')
  slot i hi := by
    have heq := hslots i hi
    rw [heq] at hi ⊢
    obtain ⟨h', hs⟩ := h.slot i hi
    exact ⟨h', hscheduled.mpr hs⟩
  invoked t cb arg now ht := by
    obtain ⟨h', tp, hs, hle⟩ := h.invoked t cb arg now (hinvoked ht)
    exact ⟨h', tp, hscheduled.mpr hs, hle⟩

/-- A call of `schedule_at`, successful or not. -/
theorem schedule (h : Punctual s) {h' : Handle} {tp : Nat}
    (hcalls : s'.calls = s.calls + 1) (hlog : s'.log = s.log ++ [.scheduled s.calls h' tp])
    (hslots : ∀ i, (s'.ds.slots i).id ≠ 0 → s'.ds.slots i = s.ds.slots i ∨
      (s'.ds.slots i).ticket = s.calls ∧ (s'.ds.slots i).when = tp) : Punctual s' := by
  have hmem : ∀ {t h₁ tp₁}, .scheduled t h₁ tp₁ ∈ s'.log ↔
      .scheduled t h₁ tp₁ ∈ s.log ∨ t = s.calls ∧ h₁ = h' ∧ tp₁ = tp := by
    intro t h₁ tp₁
    simp [hlog]
  obtain ⟨hticket, hunique⟩ := tickets_append h.ticket h.unique h' tp
  constructor
  case ticket =>
    rw [hcalls, hlog]
    exact hticket
  case unique =>
    rw [hlog]
    exact hunique
  case slot =>
    intro i hi
    rcases hslots i hi with heq | ⟨hticket, hwhen⟩
    · rw [heq] at hi ⊢
      obtain ⟨h₁, hs⟩ := h.slot i hi
      exact ⟨h₁, hmem.mpr (.inl hs)⟩
    · exact ⟨h', hmem.mpr (.inr ⟨hticket, rfl, hwhen⟩)⟩
  case invoked =>
    intro t cb arg now ht
    have ht' : .invoked t cb arg now ∈ s.log := by simpa [hlog] using ht
    obtain ⟨h₁, tp₁, hs, hle⟩ := h.invoked t cb arg now ht'
    exact ⟨h₁, tp₁, hmem.mpr (.inl hs), hle⟩

theorem move (h : Punctual s) (hmove : Move kind s l s') : Punctual s' := by
  cases hmove with
  | refuse => exact h.schedule rfl rfl fun _ _ => .inl rfl
  | @schedule i tp arg cb hcall htp hfree =>
    refine h.schedule rfl rfl fun j _ => ?_
    rcases s.ds.fill_slots (i := i) j with ⟨heq, -⟩ | ⟨heq, -⟩
    · exact .inl heq
    · exact .inr ⟨congrArg Slot.ticket heq, congrArg Slot.when heq⟩
  | cancel =>
    exact h.frame rfl (fun _ hj => (DriverState.free_filled hj).1) (by simp) (by simp)
  | cancelNone | enter | leave => exact h.frame rfl (fun _ _ => rfl) (by simp) (by simp)
  | skip | callbackReturns | advance | start =>
    exact h.frame rfl (fun _ _ => rfl) Iff.rfl id
  | @fire now since i cb hisr hid hdue hcb =>
    have hmem : ∀ {t h₁ tp₁}, .scheduled t h₁ tp₁ ∈ s.log ++
        [.invoked (s.ds.slots i).ticket cb (s.ds.slots i).arg now] ↔
        .scheduled t h₁ tp₁ ∈ s.log := by simp
    refine ⟨fun t h₁ tp₁ ht => h.ticket t h₁ tp₁ (hmem.mp ht),
      fun t h₁ tp₁ h₂ tp₂ ht₁ ht₂ => h.unique t h₁ tp₁ h₂ tp₂ (hmem.mp ht₁) (hmem.mp ht₂),
      fun j hj => ?_, fun t cb' arg' now' ht => ?_⟩
    · have heq := (DriverState.free_filled hj).1
      rw [heq] at hj ⊢
      obtain ⟨h₁, hs⟩ := h.slot j hj
      exact ⟨h₁, hmem.mpr hs⟩
    · rcases List.mem_append.mp ht with ht | ht
      · obtain ⟨h₁, tp₁, hs, hle⟩ := h.invoked t cb' arg' now' ht
        exact ⟨h₁, tp₁, hmem.mpr hs, hle⟩
      · -- the callback of slot `i`, which is due
        cases List.mem_singleton.mp ht
        obtain ⟨h₁, hs⟩ := h.slot i hid
        exact ⟨h₁, _, hmem.mpr hs, hdue⟩
  | stop hcall hstarted =>
    refine h.frame ?_ ?_ ?_ ?_ <;> simp [Driver.stop, hstarted]
  | stay => exact h

theorem reach {frequencyHz : Nat}
    (h : (slotSystem kind frequencyHz).ReachVia (fun _ _ => True) s) : Punctual s := by
  refine Lts.ReachVia.invariant (I := Punctual) ?_ ?_ h
  · rintro s ⟨now, -, rfl⟩
    exact .initial kind frequencyHz now
  · exact fun s l s' _ hs _ hstep => hs.move (Driver.step_move hstep)

end Punctual

/-! ## No undersleep -/

/-- A callback is scheduled at `now()` plus a duration that the driver computes, when
the port's counter reads `t0`. It is not started by an `on_timer_isr` of a time `t` such
that `t - t0` ticks of the counter, at `portHz`, are shorter than `x` units, of which a
second has `perSecond`. -/
def NoUndersleep (kind : Kind) (frequencyHz portHz t0 perSecond x : Nat)
    (duration : DriverState → Nat) : Prop :=
  ∀ n (r : (slotSystem kind frequencyHz).Run n), ∀ i < n, ∀ cb arg,
    r.label i = .scheduleAt (t0 + duration (r.state i).ds) cb arg → (r.state i).port.now = t0 →
    ∀ j ≤ n, ∀ cb' arg' t, .invoked (r.state i).calls cb' arg' t ∈ (r.state j).log →
      ¬ (t - t0) * perSecond < x * portHz

theorem DriverState.rearm_now (ds : DriverState) (kind : Kind) (port : Port) :
    (ds.rearm kind port).now = port.now := by
  cases kind with
  | periodic => rfl
  | tickless =>
    show (if ds.earliest = u64Max then port.disarm else port.arm ds.earliest).now = port.now
    unfold Port.arm
    split
    · rfl
    · split <;> rfl

section OnTime

variable (kind : Kind) (frequencyHz t0 ticks : Nat)

/-- A callback is scheduled `ticks` after `t0`. -/
def scheduledAt : Driver :=
  (Driver.initial kind frequencyHz t0).scheduleAt kind (t0 + ticks) (some 0) 0

/-- Its deadline has come. -/
def deadlineAt : Driver :=
  let s := scheduledAt kind frequencyHz t0 ticks
  { s with port := { s.port with now := (s.port.now + ticks) % 2 ^ 64 } }

/-- The interrupt has been entered. -/
def enteredAt : Driver :=
  let s := deadlineAt kind frequencyHz t0 ticks
  { s with
    isr := .scanning s.port.now s.calls 0
    log := s.log ++ [.entered s.port.now] }

/-- The callback has been started. -/
def invokedAt : Driver :=
  let s := enteredAt kind frequencyHz t0 ticks
  { s with
    ds := s.ds.setSlot 0 {}
    isr := .callback s.port.now 1 0
    log := s.log ++ [.invoked 0 0 0 s.port.now] }

theorem deadlineAt_now (h : t0 + ticks ≤ u64Max) :
    (deadlineAt kind frequencyHz t0 ticks).port.now = t0 + ticks := by
  show ((DriverState.rearm _ kind _).now + ticks) % 2 ^ 64 = t0 + ticks
  rw [DriverState.rearm_now]
  exact Nat.mod_eq_of_lt (Nat.lt_of_le_of_lt h (by decide))

/-- The run in which a callback is started at its deadline. -/
def onTime (h : t0 + ticks ≤ u64Max) : (slotSystem kind frequencyHz).Run 4 where
  state
    | 0 => Driver.initial kind frequencyHz t0
    | 1 => scheduledAt kind frequencyHz t0 ticks
    | 2 => deadlineAt kind frequencyHz t0 ticks
    | 3 => enteredAt kind frequencyHz t0 ticks
    | _ => invokedAt kind frequencyHz t0 ticks
  label
    | 0 => .scheduleAt (t0 + ticks) (some 0) 0
    | 1 => .advance ticks
    | 2 => .interrupt
    | _ => .scan
  start := ⟨t0, by omega, rfl⟩
  next i hi := by
    have hnow := deadlineAt_now kind frequencyHz t0 ticks h
    match i with
    | 0 =>
      have hcall : (Driver.initial kind frequencyHz t0).isr.mayCall = true ∧ t0 + ticks ≤ u64Max :=
        ⟨rfl, h⟩
      exact if_pos hcall
    | 1 | 2 => rfl
    | 3 =>
      have hdue : ((enteredAt kind frequencyHz t0 ticks).ds.slots 0).id ≠ 0 ∧
          ((enteredAt kind frequencyHz t0 ticks).ds.slots 0).when ≤
            (deadlineAt kind frequencyHz t0 ticks).port.now :=
        ⟨Nat.one_ne_zero, Nat.le_of_eq hnow.symm⟩
      exact if_pos hdue

end OnTime

/-- Exactly the durations that last `x` units at the port's frequency are safe. -/
theorem noUndersleep_iff_le {frequencyHz portHz t0 ticks perSecond x : Nat}
    {duration : DriverState → Nat}
    (hticks : ∀ ds : DriverState, ds.frequencyHz = frequencyHz → duration ds = ticks)
    (h : t0 + ticks ≤ u64Max) :
    NoUndersleep kind frequencyHz portHz t0 perSecond x duration ↔
      x * portHz ≤ ticks * perSecond := by
  constructor
  · intro hsafe
    have hlabel : (onTime kind frequencyHz t0 ticks h).label 0 = .scheduleAt
        (t0 + duration ((onTime kind frequencyHz t0 ticks h).state 0).ds) (some 0) 0 := by
      rw [hticks _ rfl]
      rfl
    have hlate := hsafe 4 (onTime kind frequencyHz t0 ticks h) 0 (by decide) (some 0) 0 hlabel rfl
      4 (Nat.le_refl _) 0 0 _ (List.mem_append_right _ (List.mem_singleton_self _))
    have hnow : (enteredAt kind frequencyHz t0 ticks).port.now = t0 + ticks :=
      deadlineAt_now kind frequencyHz t0 ticks h
    rw [hnow, Nat.add_sub_cancel_left] at hlate
    exact Nat.le_of_not_lt hlate
  · intro hle n r i hi cb arg hl hnow j hj cb' arg' t hinv
    rw [hticks _ (slotRun_frequencyHz r (Nat.le_of_lt hi))] at hl
    -- both the call and the start are in the record at the later of the two instants
    have hk : max j (i + 1) ≤ n := Nat.max_le.mpr ⟨hj, hi⟩
    have hpunctual := Punctual.reach (r.reachVia (fun _ _ => trivial) _ hk)
    obtain ⟨h₁, tp, hs, hdue⟩ :=
      hpunctual.invoked _ _ _ _ (slotRun_log_grows r (Nat.le_max_left j (i + 1)) hk hinv)
    obtain ⟨h₂, hs'⟩ := Move.records_schedule (hl ▸ slotRun_move r hi)
    obtain rfl := hpunctual.unique _ _ _ _ _ hs
      (slotRun_log_grows r (Nat.le_max_right j (i + 1)) hk hs')
    have hlong : ticks * perSecond ≤ (t - t0) * perSecond :=
      Nat.mul_le_mul_right perSecond (by omega)
    omega

/-! ## When the ticks are enough -/

/-- A product that wraps, in the multiplication or in the rounding, gives too few
ticks. -/
theorem le_ceilDivU64_iff {a perSecond : Nat} (hpos : 0 < perSecond) (hsmall : perSecond < 2 ^ 63) :
    a ≤ ceilDivU64 (a % 2 ^ 64) perSecond * perSecond ↔ a + (perSecond - 1) < 2 ^ 64 := by
  unfold ceilDivU64
  generalize hw : (a % 2 ^ 64 + perSecond - 1) % 2 ^ 64 = w
  have hlow : w / perSecond * perSecond ≤ w := Nat.div_mul_le_self w perSecond
  have hhigh : w < w / perSecond * perSecond + perSecond := Nat.lt_div_mul_add hpos
  omega

/-- Without wrapping, the ticks are the least number that lasts `a` units. -/
theorem ceilDivU64_le_iff {a perSecond n : Nat} (hpos : 0 < perSecond)
    (h : a + (perSecond - 1) < 2 ^ 64) :
    ceilDivU64 (a % 2 ^ 64) perSecond ≤ n ↔ a ≤ n * perSecond := by
  have hmod : (a % 2 ^ 64 + perSecond - 1) % 2 ^ 64 = a + perSecond - 1 := by omega
  rw [ceilDivU64, hmod, Nat.div_le_iff_le_mul_add_pred hpos, Nat.mul_comm]
  omega

theorem periodic_ticks_iff {portHz perSecond x t0 frequencyHz : Nat} (hpos : 0 < perSecond)
    (hsmall : perSecond < 2 ^ 63) {duration : DriverState → Nat}
    (hduration : ∀ ds : DriverState, duration ds = ds.ticks .periodic portHz perSecond x)
    (h : t0 + duration (Driver.initial .periodic frequencyHz t0).ds ≤ u64Max) :
    NoUndersleep .periodic frequencyHz portHz t0 perSecond x duration ↔
      x * portHz + (perSecond - 1) < 2 ^ 64 := by
  rw [hduration] at h
  rw [noUndersleep_iff_le (fun ds _ => hduration ds) h]
  exact le_ceilDivU64_iff hpos hsmall

theorem tickless_ticks_iff {portHz perSecond x t0 frequencyHz : Nat} (hpos : 0 < perSecond)
    (hfits : x * frequencyHz + (perSecond - 1) < 2 ^ 64) {duration : DriverState → Nat}
    (hduration : ∀ ds : DriverState, duration ds = ds.ticks .tickless portHz perSecond x)
    (h : t0 + duration (Driver.initial .tickless frequencyHz t0).ds ≤ u64Max) :
    NoUndersleep .tickless frequencyHz portHz t0 perSecond x duration ↔
      ∀ n, x * frequencyHz ≤ n * perSecond → x * portHz ≤ n * perSecond := by
  have hticks : ∀ ds : DriverState, ds.frequencyHz = frequencyHz →
      duration ds = ceilDivU64 (x * frequencyHz % 2 ^ 64) perSecond := by
    rintro ds rfl
    exact hduration ds
  rw [hticks _ rfl] at h
  rw [noUndersleep_iff_le hticks h]
  constructor
  · intro hle n hn
    have hmin := (ceilDivU64_le_iff hpos hfits).mpr hn
    exact hle.trans (Nat.mul_le_mul_right perSecond hmin)
  · intro hall
    exact hall _ ((ceilDivU64_le_iff hpos hfits).mp (Nat.le_refl _))

/-- **When a driver does not undersleep.** The periodic driver, for a duration and a
port frequency whose product does not wrap when it is rounded up. The tickless driver,
when every number of ticks that lasts the duration at the frequency passed to
`initialise` also lasts it at the port's frequency; so, for all durations, if the port
is not faster than that frequency. -/
theorem no_undersleep_iff (frequencyHz portHz t0 x : Nat) (hfreq : frequencyHz < 2 ^ 32)
    (hx : x < 2 ^ 32) :
    (t0 + (Driver.initial .periodic frequencyHz t0).ds.fromMilliseconds .periodic portHz x
        ≤ u64Max →
      (NoUndersleep .periodic frequencyHz portHz t0 1000 x
          (fun ds => ds.fromMilliseconds .periodic portHz x) ↔
        x * portHz + 999 < 2 ^ 64)) ∧
    (t0 + (Driver.initial .periodic frequencyHz t0).ds.fromMicroseconds .periodic portHz x
        ≤ u64Max →
      (NoUndersleep .periodic frequencyHz portHz t0 1000000 x
          (fun ds => ds.fromMicroseconds .periodic portHz x) ↔
        x * portHz + 999999 < 2 ^ 64)) ∧
    (t0 + (Driver.initial .tickless frequencyHz t0).ds.fromMilliseconds .tickless portHz x
        ≤ u64Max →
      (NoUndersleep .tickless frequencyHz portHz t0 1000 x
          (fun ds => ds.fromMilliseconds .tickless portHz x) ↔
        ∀ n, x * frequencyHz ≤ n * 1000 → x * portHz ≤ n * 1000)) ∧
    (t0 + (Driver.initial .tickless frequencyHz t0).ds.fromMicroseconds .tickless portHz x
        ≤ u64Max →
      (NoUndersleep .tickless frequencyHz portHz t0 1000000 x
          (fun ds => ds.fromMicroseconds .tickless portHz x) ↔
        ∀ n, x * frequencyHz ≤ n * 1000000 → x * portHz ≤ n * 1000000)) := by
  refine ⟨?_, ?_, ?_, ?_⟩
  · exact periodic_ticks_iff (by decide) (by decide) fun _ => rfl
  · exact periodic_ticks_iff (by decide) (by decide) fun _ => rfl
  -- a product of two 32-bit numbers leaves room for the rounding
  · exact tickless_ticks_iff (by decide) (mul_add_lt_mul_self hx hfreq (by decide)) fun _ => rfl
  · exact tickless_ticks_iff (by decide) (mul_add_lt_mul_self hx hfreq (by decide)) fun _ => rfl

/-- The tickless driver at 1 kHz, on a port at 1 MHz: a callback one millisecond ahead is
started after one microsecond. The periodic driver, on a port at `2 ^ 62` Hz: one four
milliseconds ahead is started at once. -/
theorem undersleep_runs :
    ((Driver.initial .tickless 1000 0).ds.fromMilliseconds .tickless 1000000 1 = 1 ∧
      (onTime .tickless 1000 0 1 (by decide)).label 0 = .scheduleAt (0 + 1) (some 0) 0 ∧
      .invoked 0 0 0 1 ∈ ((onTime .tickless 1000 0 1 (by decide)).state 4).log ∧
      (1 - 0) * 1000 < 1 * 1000000) ∧
    ((Driver.initial .periodic 1000 0).ds.fromMilliseconds .periodic (2 ^ 62) 4 = 0 ∧
      (onTime .periodic 1000 0 0 (by decide)).label 0 = .scheduleAt (0 + 0) (some 0) 0 ∧
      .invoked 0 0 0 0 ∈ ((onTime .periodic 1000 0 0 (by decide)).state 4).log ∧
      (0 - 0) * 1000 < 4 * 2 ^ 62) := by
  decide +kernel

theorem no_undersleep_iff_port :
    NoUndersleep .tickless 1000000 1000000 7 1000 5
      (fun ds => ds.fromMilliseconds .tickless 1000000 5) ∧
    ¬ NoUndersleep .tickless 1000 1000000 7 1000 5
      (fun ds => ds.fromMilliseconds .tickless 1000000 5) := by
  constructor
  · have hiff := (no_undersleep_iff 1000000 1000000 7 5 (by decide) (by decide)).2.2.1 (by decide)
    exact hiff.mpr fun n hn => hn
  · have hiff := (no_undersleep_iff 1000 1000000 7 5 (by decide) (by decide)).2.2.1 (by decide)
    intro hsafe
    have hn := hiff.mp hsafe 5 (by decide)
    omega

end Cortos.Time
