import Cortos.Memory.FunctionStore

/-!
# A `Function` owns its callable

In every program that uses `Function`s of one type, each `Function` is an optional callable and
each callable object is destroyed exactly once.

- `Store.step_ok`: an operation that can be written down is carried out, does to the `Function`s
  what it does to optional callables, and keeps the invariant;
- `Store.fits_of_step`: no other operation is carried out;
- `function_ownership`: the result, for whole programs.
-/

namespace Cortos.Memory

open Lib

variable {γ ν α ρ : Type} [DecidableEq γ]

namespace Store

variable {s s' : Store γ ν ρ} {i j : Nat} {f g : FunctionObject γ ν}

/-! ## The operations -/

variable (T : FunctionType) (K : Callables γ ν α ρ)

/-- After `reset` the `Function` is empty. -/
theorem Sets.emptied (h : Sets s i none s') : ∃ storage, s'.object i = some ⟨none, storage⟩ := by
  obtain ⟨f, hobject⟩ := h.object
  have hi : s'.object i = some f := by rw [hobject, Function.update_self]
  have hnone : s'.target i = none := by rw [h.target, Function.update_self]
  have hbool := (h.ok.sound hi).operatorBool
  rw [← target_eq hi, hnone] at hbool
  obtain ⟨_ | vt, storage⟩ := f
  · exact ⟨storage, hi⟩
  · cases hbool

theorem Sets.trans {o o' : Option (CallableObject γ ν)} {s₁ : Store γ ν ρ} (h : Sets s i o s₁)
    (h' : Sets s₁ i o' s') : Sets s i o' s' where
  object := by
    obtain ⟨f, hobject⟩ := h.object
    obtain ⟨f', hobject'⟩ := h'.object
    exact ⟨f', by rw [hobject', hobject, Function.update_idem]⟩
  target := by rw [h'.target, h.target, Function.update_idem]
  output := h'.output.trans h.output
  ok := h'.ok

theorem emplace_ok (h : s.Ok) (hi : s.object i = some f) {F : γ} (v : ν) {p : Nat}
    (hcompiles : T.compiles (K.size F) = true)
    (hfree : T.useHeap (K.size F) = true → s.heap p = none ∨ f.storage = .heapPtr (some p)) :
    ∃ s' o, s.emplace T K i F v p = .ok s' ∧ Sets s i (some o) s' ∧ o.callable = (F, v) := by
  obtain ⟨s₁, hreset, hsets, hheap⟩ := reset_ok h hi
  obtain ⟨storage, hempty⟩ := hsets.emptied
  obtain ⟨s', hplace, hsets'⟩ := place_ok T K hsets.ok hempty F v (p := p)
    fun huse => (hheap p).mpr (hfree huse)
  refine ⟨s', _, ?_, hsets.trans hsets', rfl⟩
  rw [emplace, if_pos hcompiles, hreset]
  exact hplace

/-- A `Function` that comes into being and then takes a callable. -/
theorem Sets.moves {s₁ : Store γ ν ρ} (h : Sets s i none s₁) (h' : Moves s₁ i j s')
    (hij : i ≠ j) : Moves s i j s' where
  object := by
    obtain ⟨f, hobject⟩ := h.object
    obtain ⟨f', g, hobject'⟩ := h'.object
    exact ⟨f', g, by rw [hobject', hobject, Function.update_idem]⟩
  target := by
    obtain ⟨o, htarget, ho⟩ := h'.target
    refine ⟨o, by rw [htarget, h.target, Function.update_idem], ?_⟩
    rw [ho, h.target, Function.update_of_ne hij.symm]
  output := h'.output.trans h.output
  ok := h'.ok

/-- The output is not part of what is held. -/
theorem Ok.output (h : s.Ok) (l : List ρ) : Ok { s with output := l } :=
  ⟨h.sound, h.blocks, h.lifetimes⟩

theorem view_output (s : Store γ ν ρ) (l : List ρ) :
    Store.view { s with output := l } = { s.view with output := l } := rfl

theorem invoke_ok (h : s.Ok) (hi : s.object i = some f) (hbool : f.operatorBool = true) (x : α) :
    ∃ s', s.invoke K i x = .ok s' ∧ s'.view = s.view.apply K (.invoke i x) ∧ s'.Ok := by
  obtain ⟨vt, o, hvtable, hget, htarget⟩ : ∃ vt o, f.vtable = some vt ∧
      vt.get s.heap f.storage = .ok o ∧ f.target s.heap = some o := by
    cases h.sound hi with
    | raw | null => cases hbool
    | inline o => exact ⟨_, o, rfl, VTable.get_inline .., FunctionObject.target_inline ..⟩
    | heap hp => exact ⟨_, _, rfl, VTable.get_heap hp, FunctionObject.target_heap hp⟩
  have hheld : s.target i = some o := (target_eq hi).trans htarget
  have hsets := put_ok h hi hheld (K.invoke o.type o.value x).2
  refine ⟨_, ?_, ?_, hsets.ok.output (s.output ++ [(K.invoke o.type o.value x).1])⟩
  · simp only [invoke, function_eq hi, bind, Except.bind, hvtable, hget]
    rfl
  · have hslot : s.view.slot i = some (some (o.type, o.value)) := by
      show (s.object i).map _ = _
      rw [hi, hheld]
      rfl
    refine (view_output _ _).trans ?_
    rw [hsets.view, Slots.apply, hslot]
    rfl

theorem destroy_ok (h : s.Ok) (hi : s.object i = some f) :
    ∃ s', (s.reset i >>= fun s => pure { s with object := Function.update s.object i none }) =
      .ok s' ∧ s'.view = { s.view with slot := Function.update s.view.slot i none } ∧ s'.Ok := by
  obtain ⟨s₁, hreset, hsets, -⟩ := reset_ok h hi
  obtain ⟨storage, hempty⟩ := hsets.emptied
  have htarget : Store.target { s₁ with object := Function.update s₁.object i none } =
      Function.update s₁.target i none := target_update (s := s₁) (e := none) rfl fun _ _ _ => rfl
  refine ⟨_, by rw [hreset]; rfl, ?_, ?_⟩
  · have hview := congrArg Slots.slot hsets.view
    refine Slots.ext (funext fun k => ?_) hsets.output
    show (Function.update s₁.object i none k).map _ = Function.update s.view.slot i none k
    rw [htarget]
    by_cases hk : k = i
    · rw [hk, Function.update_self, Function.update_self, Function.update_self]
      rfl
    · rw [Function.update_of_ne hk, Function.update_of_ne hk, Function.update_of_ne hk]
      exact (congrFun hview k).trans (Function.update_of_ne hk ..)
  · refine hsets.ok.update (e := none) rfl (fun _ _ _ => rfl) nofun ?_ ?_
    · intro p o hp
      refine .inr ⟨hp, fun g hg => ?_⟩
      rw [hempty] at hg
      cases hg
      exact hsets.ok.empty_storage hempty p
    · have hsame : Function.update s₁.held i none = s₁.held :=
        Function.update_eq_self_iff.mpr (held_empty hempty).symm
      rw [held_update htarget]
      exact hsame.symm ▸ hsets.ok.lifetimes

/-- **Step lemma**: an operation that can be written down succeeds, does what it does to
optional callables, and keeps all objects accounted for. -/
theorem step_ok (h : s.Ok) {op : FunctionOp γ ν α} (hfits : op.Fits T K s) :
    ∃ s', s.step T K op = .ok s' ∧ s'.view = s.view.apply K op ∧ s'.Ok := by
  cases op with
  | default i =>
    obtain ⟨hcreate, hsets⟩ := create_ok h hfits
    exact ⟨_, hcreate, hsets.view, hsets.ok⟩
  | construct i F v p =>
    obtain ⟨hi, hcompiles, hfree⟩ := hfits
    obtain ⟨hcreate, hsets⟩ := create_ok h hi
    obtain ⟨s', o, hemplace, hsets', ho⟩ := emplace_ok T K hsets.ok (f := {})
      (Function.update_self ..) v hcompiles fun huse => .inl (hfree huse)
    refine ⟨s', ?_, ?_, hsets'.ok⟩
    · rw [step, hcreate]
      exact hemplace
    · rw [(hsets.trans hsets').view, Option.map_some, ho]
      rfl
  | emplace i F v p =>
    obtain ⟨f, hi, hcompiles, hfree⟩ := hfits
    obtain ⟨s', o, hemplace, hsets, ho⟩ := emplace_ok T K h hi v hcompiles hfree
    refine ⟨s', hemplace, ?_, hsets.ok⟩
    rw [hsets.view, Option.map_some, ho]
    rfl
  | moveConstruct i j =>
    obtain ⟨hi, g, hj⟩ := hfits
    have hij : i ≠ j := by
      rintro rfl
      rw [hi] at hj
      cases hj
    obtain ⟨hcreate, hsets⟩ := create_ok h hi
    have hj' : (s.setFunction i {}).object j = some g :=
      (Function.update_of_ne hij.symm ..).trans hj
    obtain ⟨s', hmove, hmoves⟩ := moveFrom_ok hsets.ok hij (Function.update_self ..) hj'
    refine ⟨s', ?_, (hsets.moves hmoves hij).view hj, hmoves.ok⟩
    rw [step, function_eq hj]
    show (s.create i >>= fun s => s.moveFrom i j) = .ok s'
    rw [hcreate]
    exact hmove
  | moveAssign i j =>
    obtain ⟨⟨f, hi⟩, g, hj⟩ := hfits
    by_cases hij : i = j
    · refine ⟨s, ?_, ?_, h⟩
      · rw [step, function_eq hi, function_eq hj]
        exact if_pos hij
      · exact (if_pos hij).symm
    · obtain ⟨s₁, hreset, hsets, -⟩ := reset_ok h hi
      obtain ⟨storage, hempty⟩ := hsets.emptied
      have hj' : s₁.object j = some g := by
        obtain ⟨f', hobject⟩ := hsets.object
        rw [hobject, Function.update_of_ne (Ne.symm hij), hj]
      obtain ⟨s', hmove, hmoves⟩ := moveFrom_ok hsets.ok hij hempty hj'
      refine ⟨s', ?_, ?_, hmoves.ok⟩
      · rw [step, function_eq hi, function_eq hj]
        show (if i = j then pure s else s.reset i >>= fun s => s.moveFrom i j) = .ok s'
        rw [if_neg hij, hreset]
        exact hmove
      · rw [(hsets.moves hmoves hij).view hj]
        exact (if_neg hij).symm
  | reset i =>
    obtain ⟨f, hi⟩ := hfits
    obtain ⟨s', hreset, hsets, -⟩ := reset_ok h hi
    exact ⟨s', hreset, hsets.view, hsets.ok⟩
  | invoke i x =>
    obtain ⟨f, hi, hbool⟩ := hfits
    exact invoke_ok K h hi hbool x
  | destroy i =>
    obtain ⟨f, hi⟩ := hfits
    exact destroy_ok h hi

theorem object_of_reset (h : s.reset i = .ok s') : ∃ f, s.object i = some f := by
  obtain ⟨f, hi, -⟩ := object_of_bind h
  exact ⟨f, hi⟩

theorem emplace_fits (h : s.Ok) {F : γ} {v : ν} {p : Nat}
    (hs : s.emplace T K i F v p = .ok s') : ∃ f, s.object i = some f ∧
      T.compiles (K.size F) = true ∧
      (T.useHeap (K.size F) = true → s.heap p = none ∨ f.storage = .heapPtr (some p)) := by
  rw [emplace] at hs
  split at hs
  case isFalse => cases hs
  case isTrue hcompiles =>
    cases hreset : s.reset i with
    | error e =>
      rw [hreset] at hs
      cases hs
    | ok s₁ =>
      obtain ⟨f, hi⟩ := object_of_reset hreset
      obtain ⟨s₂, hreset', -, hheap⟩ := reset_ok h hi
      rw [hreset] at hs hreset'
      cases hreset'
      exact ⟨f, hi, hcompiles, fun huse => (hheap p).mp (heap_of_place hs huse)⟩

/-- Only what can be written down is carried out. -/
theorem fits_of_step (h : s.Ok) {op : FunctionOp γ ν α} (hs : s.step T K op = .ok s') :
    op.Fits T K s := by
  cases op with
  | default i => exact (object_of_create hs).1
  | construct i F v p =>
    cases hcreate : s.create i with
    | error e =>
      rw [step, hcreate] at hs
      cases hs
    | ok s₁ =>
      obtain ⟨hi, rfl⟩ := object_of_create hcreate
      rw [step, hcreate] at hs
      obtain ⟨f, hf, hcompiles, hfree⟩ := emplace_fits T K (create_ok h hi).2.ok hs
      refine ⟨hi, hcompiles, fun huse => (hfree huse).resolve_right ?_⟩
      have hnew : (s.setFunction i {}).object i = some {} := Function.update_self ..
      obtain rfl := Option.some.inj (hf.symm.trans hnew)
      nofun
  | emplace i F v p => exact emplace_fits T K h hs
  | moveConstruct i j =>
    obtain ⟨g, hj, hs⟩ := object_of_bind hs
    cases hcreate : s.create i with
    | error e =>
      rw [hcreate] at hs
      cases hs
    | ok s₁ => exact ⟨(object_of_create hcreate).1, g, hj⟩
  | moveAssign i j =>
    obtain ⟨f, hi, hs⟩ := object_of_bind hs
    obtain ⟨g, hj, -⟩ := object_of_bind hs
    exact ⟨⟨f, hi⟩, g, hj⟩
  | reset i => exact object_of_reset hs
  | invoke i x =>
    obtain ⟨f, hi, hs⟩ := object_of_bind hs
    refine ⟨f, hi, ?_⟩
    obtain ⟨_ | vt, storage⟩ := f
    · cases hs
    · rfl
  | destroy i =>
    cases hreset : s.reset i with
    | error e =>
      rw [step, hreset] at hs
      cases hs
    | ok s₁ => exact object_of_reset hreset

end Store

/-! ## Whole programs -/

theorem Store.Ok.initial : Store.Ok ({} : Store γ ν ρ) where
  sound := nofun
  blocks := nofun
  lifetimes := .empty

variable (T : FunctionType) (K : Callables γ ν α ρ)

theorem Store.Ok.reach {s : Store γ ν ρ} (h : (functions T K).ReachVia (fun _ _ => True) s) :
    s.Ok := by
  refine Lts.ReachVia.invariant (I := Store.Ok) ?_ ?_ h
  · rintro _ rfl
    exact Store.Ok.initial
  · intro s op s' _ hok _ hs
    obtain ⟨s'', hs'', -, hok'⟩ := Store.step_ok T K hok (Store.fits_of_step T K hok hs)
    obtain rfl : s'' = s' := Except.ok.inj (hs''.symm.trans hs)
    exact hok'

/-- **Ownership.** In every program, each operation does to the `Function`s what it does to
optional callables, and each one that can be written down is carried out; every callable object
is held by exactly one `Function` and has not been destroyed, or is held by none and has been
destroyed once; and when no `Function` is left, every object has been destroyed once and no
block of the heap is left. -/
theorem function_ownership {s : Store γ ν ρ}
    (hreach : (functions T K).ReachVia (fun _ _ => True) s) :
    (∀ op s', s.step T K op = .ok s' → s'.view = s.view.apply K op) ∧
    (∀ op, op.Fits T K s → ∃ s', s.step T K op = .ok s') ∧
    (∀ x < s.constructed,
      (∃! i, (s.target i).map CallableObject.id = some x) ∧ s.destroyed.count x = 0 ∨
      (∀ i, (s.target i).map CallableObject.id ≠ some x) ∧ s.destroyed.count x = 1) ∧
    ((∀ i, s.object i = none) →
      (∀ x < s.constructed, s.destroyed.count x = 1) ∧ ∀ p, s.heap p = none) := by
  have hok := Store.Ok.reach T K hreach
  refine ⟨fun op s' hs => ?_, fun op hfits => ?_, fun x hx => hok.lifetimes.held_or_destroyed hx,
    fun hnone => ⟨fun x hx => ?_, fun p => ?_⟩⟩
  · obtain ⟨s'', hs'', hview, -⟩ := Store.step_ok T K hok (Store.fits_of_step T K hok hs)
    obtain rfl : s'' = s' := Except.ok.inj (hs''.symm.trans hs)
    exact hview
  · obtain ⟨s', hs', -⟩ := Store.step_ok T K hok hfits
    exact ⟨s', hs'⟩
  · rcases hok.lifetimes.held_or_destroyed hx with ⟨⟨i, hi, -⟩, -⟩ | ⟨-, hcount⟩
    · have hempty : s.held i = none := by
        rw [Store.held, Function.comp_apply, Store.target, hnone]
        rfl
      have hi : s.held i = some x := hi
      rw [hempty] at hi
      cases hi
    · exact hcount
  · cases hp : s.heap p with
    | none => rfl
    | some o =>
      obtain ⟨i, f, hi, -⟩ := hok.blocks hp
      rw [hnone] at hi
      cases hi

/-- Callables of 8 and of 64 bytes that return their value and count up. -/
def counters : Callables Bool Nat Unit Nat where
  size large := if large then 64 else 8
  invoke _ v _ := (v, v + 1)

/-- A counter in the buffer is moved twice, the second time over one on the heap, and called
in between. Its third object is the only one left. -/
theorem moved_counter_owned : ∃ s : Store Bool Nat Nat,
    s.constructed = 4 ∧ s.destroyed = [0, 1, 2] ∧ s.output = [5, 6] ∧
      ∃! i, (s.target i).map CallableObject.id = some 3 := by
  have hrun : (functions ⟨32, .canUseHeap⟩ counters).runsTo (fun _ _ => True)
      (fun s => s.constructed = 4 ∧ s.destroyed = [0, 1, 2] ∧ s.output = [5, 6]) {}
      [.construct 0 false 5 0, .construct 1 true 9 7, .moveConstruct 2 0, .invoke 2 (),
        .moveAssign 1 2, .moveAssign 1 1, .invoke 1 ()] = true := by
    decide +kernel
  obtain ⟨s, hreach, hconstructed, hdestroyed, houtput⟩ :=
    Lts.ReachVia.runsTo (.init rfl) hrun
  have howned := (function_ownership _ _ hreach).2.2.1 3 (by omega)
  refine ⟨s, hconstructed, hdestroyed, houtput, ?_⟩
  rcases howned with ⟨hone, -⟩ | ⟨-, hcount⟩
  · exact hone
  · rw [hdestroyed] at hcount
    cases hcount

end Cortos.Memory
