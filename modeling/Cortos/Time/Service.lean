import Mathlib.Logic.Function.Basic
import Cortos.Lib.Lists

/-!
# What a time driver is for

`time.hpp` declares one interface and the repository has three drivers for it. This
module says what the interface promises, over the record of a run:

- `Event`: what a client sees. Every call of `schedule_at` has a number, its ticket, so
  that two calls with the same callback and argument can be told apart.
- `Service`: the timers that are pending, and the record. `Service.Step` is one
  call, or one callback being started.
- `Service.Inv`: what the record of every run of the service satisfies: a callback is
  started at most once and not before its deadline; a callback is pending until it is
  started or cancelled; after a cancel it is not started any more.

The drivers are compared with the service in the modules that model them.
-/

namespace Cortos.Time

open Lib

/-- `Handle`; `id = 0` is the invalid handle. -/
structure Handle where
  id : Nat := 0
  deriving DecidableEq, Repr

/-- The address of a callback function. -/
abbrev Callback := Nat

/-- The record of a run. Tickets number the calls of `schedule_at`. -/
inductive Event where
  /-- `schedule_at(tp, ..)` returned `h`. -/
  | scheduled (ticket : Nat) (h : Handle) (tp : Nat)
  /-- `cancel(h)` returned `result`. -/
  | cancelled (h : Handle) (result : Bool)
  /-- `on_timer_isr` was entered at time `now`. -/
  | entered (now : Nat)
  /-- The callback of a call was started by an `on_timer_isr` of time `now`. -/
  | invoked (ticket : Nat) (cb : Callback) (arg now : Nat)
  /-- `on_timer_isr` returned. -/
  | returned
  deriving DecidableEq, Repr

namespace Event

/-- The callback of call `t` is started. -/
def invokes (t : Nat) : Event → Bool
  | .invoked u _ _ _ => u = t
  | _ => false

/-- Entry to or return from `on_timer_isr`. -/
def isIsr : Event → Bool
  | .entered _ | .returned => true
  | _ => false

end Event

/-- The callback of call `t` is started somewhere in the record. -/
def Invoked (log : List Event) (t : Nat) : Prop := ∃ e ∈ log, e.invokes t = true

theorem Invoked.mem {log : List Event} {t : Nat} {cb : Callback} {arg now : Nat}
    (h : Event.invoked t cb arg now ∈ log) : Invoked log t :=
  ⟨_, h, decide_eq_true rfl⟩

@[simp] theorem invoked_append {log : List Event} {e : Event} {t : Nat} :
    Invoked (log ++ [e]) t ↔ Invoked log t ∨ e.invokes t = true := by
  simp [Invoked, or_and_right, exists_or]

/-! ## The service -/

/-- A pending timer. -/
structure Timer where
  handle : Handle
  deadline : Nat

/-- The number of calls of `schedule_at`, the pending timers by ticket, and the
record. -/
structure Service where
  calls : Nat
  pending : Nat → Option Timer
  log : List Event

namespace Service

def initial : Service := ⟨0, fun _ => none, []⟩

/-- A call, or a callback being started. -/
inductive Step (a : Service) : Service → Prop where
  | schedule {h : Handle} {tp : Nat} (hid : h.id ≠ 0)
      (hfresh : ∀ t x, a.pending t = some x → x.handle ≠ h) :
      Step a ⟨a.calls + 1, Function.update a.pending a.calls (some ⟨h, tp⟩),
        a.log ++ [.scheduled a.calls h tp]⟩
  | refuse {tp : Nat} : Step a ⟨a.calls + 1, a.pending, a.log ++ [.scheduled a.calls {} tp]⟩
  | cancel {t : Nat} {x : Timer} (ht : a.pending t = some x) :
      Step a ⟨a.calls, Function.update a.pending t none, a.log ++ [.cancelled x.handle true]⟩
  | cancelNone {h : Handle} (hnone : ∀ t x, a.pending t = some x → x.handle ≠ h) :
      Step a ⟨a.calls, a.pending, a.log ++ [.cancelled h false]⟩
  | invoke {t : Nat} {x : Timer} {cb : Callback} {arg now : Nat} (ht : a.pending t = some x)
      (hdue : x.deadline ≤ now) :
      Step a ⟨a.calls, Function.update a.pending t none, a.log ++ [.invoked t cb arg now]⟩
  | isr {e : Event} (he : e.isIsr = true) : Step a ⟨a.calls, a.pending, a.log ++ [e]⟩

/-- The pending timers as a relation, when one timer is added. -/
theorem pending_add {p : Nat → Option Timer} {L L' : Nat → Timer → Prop} {u : Nat} {y : Timer}
    (hp : ∀ t x, p t = some x ↔ L t x) (hu : ∀ x, ¬ L u x)
    (hL : ∀ t x, L' t x ↔ (t = u ∧ x = y) ∨ L t x) (t : Nat) (x : Timer) :
    Function.update p u (some y) t = some x ↔ L' t x := by
  rw [hL]
  by_cases ht : t = u
  · subst ht
    simp [hu, eq_comm]
  · simp [ht, hp]

/-- The pending timers as a relation, when one timer goes away. -/
theorem pending_drop {p : Nat → Option Timer} {L L' : Nat → Timer → Prop} {u : Nat}
    (hp : ∀ t x, p t = some x ↔ L t x) (hL : ∀ t x, L' t x ↔ t ≠ u ∧ L t x) (t : Nat)
    (x : Timer) : Function.update p u none t = some x ↔ L' t x := by
  rw [hL]
  by_cases ht : t = u
  · subst ht
    simp
  · simp [ht, hp]

theorem pending_removed {p : Nat → Option Timer} {t u : Nat} {x : Timer} :
    Function.update p u none t = some x ↔ t ≠ u ∧ p t = some x :=
  pending_drop (fun _ _ => Iff.rfl) (fun _ _ => Iff.rfl) t x

/-- What the record of a run of the service satisfies. -/
structure Inv (a : Service) : Prop where
  /-- Tickets are given in order. -/
  ticket : ∀ t h tp, .scheduled t h tp ∈ a.log → t < a.calls
  /-- A call returns once. -/
  unique : ∀ t h tp h' tp', .scheduled t h tp ∈ a.log → .scheduled t h' tp' ∈ a.log →
    h = h' ∧ tp = tp'
  /-- A pending timer was scheduled. -/
  pending : ∀ t x, a.pending t = some x →
    x.handle.id ≠ 0 ∧ .scheduled t x.handle x.deadline ∈ a.log
  /-- Pending timers have distinct handles. -/
  distinct : ∀ t u x y, a.pending t = some x → a.pending u = some y → x.handle = y.handle → t = u
  /-- A timer is pending until it is started or cancelled. -/
  settled : ∀ t h tp, .scheduled t h tp ∈ a.log → h.id ≠ 0 →
    a.pending t = some ⟨h, tp⟩ ∨ Invoked a.log t ∨ .cancelled h true ∈ a.log
  /-- A callback that was started was due, and its timer is gone. -/
  invoked : ∀ t cb arg now, .invoked t cb arg now ∈ a.log → a.pending t = none ∧
    ∃ h tp, .scheduled t h tp ∈ a.log ∧ h.id ≠ 0 ∧ tp ≤ now
  /-- A callback is started once. -/
  once : ∀ t, a.log.countP (Event.invokes t) ≤ 1
  /-- A cancel succeeds only on a timer that was scheduled. -/
  cancelled : ∀ pre post h, a.log = pre ++ .cancelled h true :: post →
    ∃ t tp, .scheduled t h tp ∈ pre ∧ h.id ≠ 0
  /-- A cancel fails on a timer only if it was started or cancelled before. -/
  refused : ∀ pre post h, a.log = pre ++ .cancelled h false :: post →
    ∀ t tp, .scheduled t h tp ∈ pre → h.id ≠ 0 → Invoked pre t ∨ .cancelled h true ∈ pre
  /-- After a cancel the timer is gone, and its callback is not started. -/
  silent : ∀ pre post h r, a.log = pre ++ .cancelled h r :: post →
    ∀ t tp, .scheduled t h tp ∈ pre → h.id ≠ 0 → a.pending t = none ∧ ¬ Invoked post t

theorem Inv.initial : Inv Service.initial := by
  constructor <;> simp [Service.initial]

variable {a a' : Service}

theorem Inv.not_invoked (h : Inv a) {t : Nat} {x : Timer} (ht : a.pending t = some x) :
    ¬ Invoked a.log t := by
  rintro ⟨e, he, hinv⟩
  cases e with
  | invoked u cb arg now =>
    obtain rfl : u = t := of_decide_eq_true hinv
    have hnone := (h.invoked u cb arg now he).1
    rw [ht] at hnone
    cases hnone
  | _ => cases hinv

theorem Inv.unborn (h : Inv a) {t : Nat} (ht : a.calls ≤ t) :
    a.pending t = none ∧ ¬ Invoked a.log t := by
  constructor
  · cases hx : a.pending t with
    | none => rfl
    | some x => exact absurd (h.ticket t _ _ (h.pending t x hx).2) (by omega)
  · rintro ⟨e, he, hinv⟩
    cases e with
    | invoked u cb arg now =>
      obtain rfl : u = t := of_decide_eq_true hinv
      obtain ⟨-, h', tp, hs, -⟩ := h.invoked u cb arg now he
      exact absurd (h.ticket u h' tp hs) (by omega)
    | _ => cases hinv

/-- Events that are not calls of `schedule_at`: pending timers may only go away, and
the event says which and why. -/
theorem Inv.settle (h : Inv a) {p : Nat → Option Timer} {e : Event}
    (he : ∀ t h tp, e ≠ .scheduled t h tp)
    (hsub : ∀ t x, p t = some x → a.pending t = some x)
    (hgone : ∀ t x, a.pending t = some x →
      p t = some x ∨ e.invokes t = true ∨ e = .cancelled x.handle true)
    (hinvoked : ∀ t cb arg now, e = .invoked t cb arg now →
      p t = none ∧ ∃ x, a.pending t = some x ∧ x.deadline ≤ now)
    (hcancelled : ∀ h', e = .cancelled h' true → ∃ t x, a.pending t = some x ∧ x.handle = h')
    (hsilent : ∀ h' r, e = .cancelled h' r → ∀ t x, p t = some x → x.handle ≠ h') :
    Inv ⟨a.calls, p, a.log ++ [e]⟩ := by
  have hmem : ∀ {t h' tp}, .scheduled t h' tp ∈ a.log ++ [e] ↔ .scheduled t h' tp ∈ a.log := by
    intro t h' tp
    simp [(he t h' tp).symm]
  have hnone : ∀ t, a.pending t = none → p t = none := by
    intro t ht
    cases hp : p t with
    | none => rfl
    | some x => rw [hsub t x hp] at ht; cases ht
  constructor
  case ticket => exact fun t h' tp ht => h.ticket t h' tp (hmem.mp ht)
  case unique =>
    intro t h₁ tp₁ h₂ tp₂ ht₁ ht₂
    exact h.unique t h₁ tp₁ h₂ tp₂ (hmem.mp ht₁) (hmem.mp ht₂)
  case pending => exact fun t x hx => (h.pending t x (hsub t x hx)).imp_right hmem.mpr
  case distinct => exact fun t u x y hx hy => h.distinct t u x y (hsub t x hx) (hsub u y hy)
  case settled =>
    intro t h' tp ht hid
    simp only [invoked_append, List.mem_append, List.mem_singleton]
    rcases h.settled t h' tp (hmem.mp ht) hid with hp | hi | hc
    · rcases hgone t _ hp with hp | hi | hc
      · exact .inl hp
      · exact .inr (.inl (.inr hi))
      · exact .inr (.inr (.inr hc.symm))
    · exact .inr (.inl (.inl hi))
    · exact .inr (.inr (.inl hc))
  case invoked =>
    intro t cb arg now ht
    rcases List.mem_append.mp ht with ht | ht
    · obtain ⟨hp, h', tp, hs, hdue⟩ := h.invoked t cb arg now ht
      exact ⟨hnone t hp, h', tp, hmem.mpr hs, hdue⟩
    · obtain ⟨hp, x, hx, hdue⟩ := hinvoked t cb arg now (List.mem_singleton.mp ht).symm
      obtain ⟨hid, hs⟩ := h.pending t x hx
      exact ⟨hp, x.handle, x.deadline, hmem.mpr hs, hid, hdue⟩
  case once =>
    intro t
    rw [List.countP_append]
    have hcount := h.once t
    cases hinv : e.invokes t with
    | false => simpa [hinv] using hcount
    | true =>
      -- the timer was pending, so its callback had not been started
      cases e with
      | invoked u cb arg now =>
        obtain rfl : u = t := of_decide_eq_true hinv
        obtain ⟨-, x, hx, -⟩ := hinvoked u cb arg now rfl
        have hzero : a.log.countP (Event.invokes u) = 0 := by
          rw [List.countP_eq_zero]
          exact fun e he hinv => h.not_invoked hx ⟨e, he, hinv⟩
        simp [hzero, hinv]
      | _ => cases hinv
  case cancelled =>
    intro pre post h' hlog
    rcases append_singleton_eq hlog with ⟨-, hx, rfl⟩ | ⟨post', -, hlog⟩
    · obtain ⟨t, x, ht, rfl⟩ := hcancelled h' hx.symm
      obtain ⟨hid, hs⟩ := h.pending t x ht
      exact ⟨t, x.deadline, hs, hid⟩
    · exact h.cancelled pre post' h' hlog
  case refused =>
    intro pre post h' hlog t tp hs hid
    rcases append_singleton_eq hlog with ⟨-, hx, rfl⟩ | ⟨post', -, hlog'⟩
    · rcases h.settled t h' tp hs hid with hp | hsettled
      · -- a timer that was pending is still there
        subst hx
        rcases hgone t _ hp with hp | hi | hc
        · exact absurd rfl (hsilent h' false rfl t _ hp)
        · cases hi
        · cases hc
      · exact hsettled
    · exact h.refused pre post' h' hlog' t tp hs hid
  case silent =>
    intro pre post h' r hlog t tp hs hid
    rcases append_singleton_eq hlog with ⟨rfl, hx, rfl⟩ | ⟨post', rfl, hlog'⟩
    · refine ⟨?_, by simp [Invoked]⟩
      show p t = none
      cases hp : p t with
      | none => rfl
      | some x =>
        have hunique := (h.unique t _ _ _ _ hs (h.pending t x (hsub t x hp)).2).1
        exact absurd hunique.symm (hsilent h' r hx.symm t x hp)
    · obtain ⟨hp, hi⟩ := h.silent pre post' h' r hlog' t tp hs hid
      refine ⟨hnone t hp, ?_⟩
      rw [invoked_append]
      rintro (hi' | hi')
      · exact hi hi'
      · cases e with
        | invoked u cb arg now =>
          obtain rfl : u = t := of_decide_eq_true hi'
          obtain ⟨-, x, hx, -⟩ := hinvoked u cb arg now rfl
          rw [hp] at hx
          cases hx
        | _ => cases hi'

/-- Calls of `schedule_at`, successful or not. -/
theorem Inv.schedule (h : Inv a) {h' : Handle} {tp : Nat} {p : Nat → Option Timer}
    (hold : ∀ t, t ≠ a.calls → p t = a.pending t)
    (hnew : h'.id ≠ 0 → p a.calls = some ⟨h', tp⟩) (hrefused : h'.id = 0 → p a.calls = none)
    (hfresh : h'.id ≠ 0 → ∀ t x, a.pending t = some x → x.handle ≠ h') :
    Inv ⟨a.calls + 1, p, a.log ++ [.scheduled a.calls h' tp]⟩ := by
  have hmem : ∀ {t h₁ tp₁}, .scheduled t h₁ tp₁ ∈ a.log ++ [.scheduled a.calls h' tp] ↔
      .scheduled t h₁ tp₁ ∈ a.log ∨ t = a.calls ∧ h₁ = h' ∧ tp₁ = tp := by
    intro t h₁ tp₁
    simp
  -- the new ticket is not in the record yet
  have hold' : ∀ {t h₁ tp₁}, .scheduled t h₁ tp₁ ∈ a.log → t ≠ a.calls := by
    intro t h₁ tp₁ ht heq
    exact absurd (h.ticket t h₁ tp₁ ht) (by omega)
  have hcase : ∀ {t x}, p t = some x → a.pending t = some x ∧ t ≠ a.calls ∨
      t = a.calls ∧ h'.id ≠ 0 ∧ x = ⟨h', tp⟩ := by
    intro t x hx
    by_cases ht : t = a.calls
    · subst ht
      by_cases hid : h'.id = 0
      · rw [hrefused hid] at hx
        cases hx
      · rw [hnew hid] at hx
        exact .inr ⟨rfl, hid, (Option.some.inj hx).symm⟩
    · rw [hold t ht] at hx
      exact .inl ⟨hx, ht⟩
  constructor
  case ticket =>
    intro t h₁ tp₁ ht
    show t < a.calls + 1
    rcases hmem.mp ht with ht | ⟨rfl, -⟩
    · have := h.ticket t h₁ tp₁ ht
      omega
    · omega
  case unique =>
    intro t h₁ tp₁ h₂ tp₂ ht₁ ht₂
    rcases hmem.mp ht₁ with hin₁ | ⟨hnew₁, rfl, rfl⟩ <;>
      rcases hmem.mp ht₂ with hin₂ | ⟨hnew₂, rfl, rfl⟩
    · exact h.unique t h₁ tp₁ h₂ tp₂ hin₁ hin₂
    · exact absurd hnew₂ (hold' hin₁)
    · exact absurd hnew₁ (hold' hin₂)
    · exact ⟨rfl, rfl⟩
  case pending =>
    intro t x hx
    rcases hcase hx with ⟨hx, -⟩ | ⟨rfl, hid, rfl⟩
    · exact (h.pending t x hx).imp_right fun hs => hmem.mpr (.inl hs)
    · exact ⟨hid, hmem.mpr (.inr ⟨rfl, rfl, rfl⟩)⟩
  case distinct =>
    intro t u x y hx hy hxy
    rcases hcase hx with ⟨hx, -⟩ | ⟨rfl, hid, rfl⟩ <;> rcases hcase hy with ⟨hy, -⟩ | ⟨rfl, hid', rfl⟩
    · exact h.distinct t u x y hx hy hxy
    · exact absurd hxy (hfresh hid' t x hx)
    · exact absurd hxy.symm (hfresh hid u y hy)
    · rfl
  case settled =>
    intro t h₁ tp₁ ht hid
    simp only [invoked_append, List.mem_append, List.mem_singleton]
    rcases hmem.mp ht with ht | ⟨rfl, rfl, rfl⟩
    · rcases h.settled t h₁ tp₁ ht hid with hp | hi | hc
      · exact .inl ((hold t (hold' ht)).trans hp)
      · exact .inr (.inl (.inl hi))
      · exact .inr (.inr (.inl hc))
    · exact .inl (hnew hid)
  case invoked =>
    intro t cb arg now ht
    have ht' : .invoked t cb arg now ∈ a.log := by simpa using ht
    obtain ⟨hp, h₁, tp₁, hs, hdue⟩ := h.invoked t cb arg now ht'
    exact ⟨(hold t (hold' hs)).trans hp, h₁, tp₁, hmem.mpr (.inl hs), hdue⟩
  case once =>
    intro t
    have hcount := h.once t
    rw [List.countP_append]
    simpa [Event.invokes] using hcount
  case cancelled =>
    intro pre post h₁ hlog
    rcases append_singleton_eq hlog with ⟨-, hx, -⟩ | ⟨post', -, hlog⟩
    · cases hx
    · exact h.cancelled pre post' h₁ hlog
  case refused =>
    intro pre post h₁ hlog
    rcases append_singleton_eq hlog with ⟨-, hx, -⟩ | ⟨post', -, hlog⟩
    · cases hx
    · exact h.refused pre post' h₁ hlog
  case silent =>
    intro pre post h₁ r hlog t tp₁ hs hid
    rcases append_singleton_eq hlog with ⟨-, hx, -⟩ | ⟨post', rfl, hlog'⟩
    · cases hx
    · have hs' : .scheduled t h₁ tp₁ ∈ a.log := by
        rw [hlog']
        exact List.mem_append_left _ hs
      obtain ⟨hp, hi⟩ := h.silent pre post' h₁ r hlog' t tp₁ hs hid
      refine ⟨(hold t (hold' hs')).trans hp, ?_⟩
      rw [invoked_append]
      rintro (hi' | hi')
      · exact hi hi'
      · cases hi'

/-- A step of the service keeps the invariant. -/
theorem Inv.step (h : Inv a) (hstep : Step a a') : Inv a' := by
  cases hstep with
  | @schedule h' tp hid hfresh =>
    refine h.schedule (fun t ht => Function.update_of_ne ht _ _) (fun _ => ?_)
      (fun hid' => absurd hid' hid) fun _ => hfresh
    exact Function.update_self ..
  | refuse =>
    exact h.schedule (fun _ _ => rfl) (fun hid => absurd rfl hid)
      (fun _ => (h.unborn (Nat.le_refl _)).1) (fun hid => absurd rfl hid)
  | @cancel t x ht =>
    refine h.settle (by simp) (fun _ _ hy => (pending_removed.mp hy).2) ?_ (by simp) ?_ ?_
    · intro u y hy
      by_cases hu : u = t
      · subst hu
        obtain rfl : x = y := Option.some.inj (ht.symm.trans hy)
        exact .inr (.inr rfl)
      · exact .inl (by rwa [Function.update_of_ne hu])
    · intro h' he
      cases he
      exact ⟨t, x, ht, rfl⟩
    · intro h' r he u y hy hhandle
      cases he
      obtain ⟨hu, hy⟩ := pending_removed.mp hy
      exact hu (h.distinct u t y x hy ht hhandle)
  | cancelNone hnone =>
    refine h.settle (by simp) (fun _ _ => id) (fun _ _ => .inl) (by simp) (by simp) ?_
    intro h' r he
    cases he
    exact hnone
  | @invoke t x cb arg now ht hdue =>
    refine h.settle (by simp) (fun _ _ hy => (pending_removed.mp hy).2) ?_ ?_ (by simp) (by simp)
    · intro u y hy
      by_cases hu : u = t
      · exact .inr (.inl (by simp [Event.invokes, hu]))
      · exact .inl (by rwa [Function.update_of_ne hu])
    · intro u cb' arg' now' he
      cases he
      exact ⟨Function.update_self .., x, ht, hdue⟩
  | @isr e he =>
    refine h.settle ?_ (fun _ _ => id) (fun _ _ => .inl) ?_ ?_ ?_ <;>
      · intros
        cases e <;> simp_all [Event.isIsr]

end Service

end Cortos.Time
