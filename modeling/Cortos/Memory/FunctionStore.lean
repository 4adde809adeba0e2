import Cortos.Lib.Lifetime
import Cortos.Memory.Function

/-!
# What `reset`, `emplace` and `move_from` do

The functions of `Cortos.Memory.Function` in terms of the objects that are held.

- `Sound`: what the table of a `Function` says of its storage;
- `Store.Ok`: every `Function` is sound, and the objects they hold together with the destroyed
  ones are all there are (`Lib.Lifetimes`, with the `Function`s as owners);
- `Sets`, `Moves`: one `Function` holds something else, or the callable of one has gone to
  another; `reset_ok`, `place_ok`, `moveFrom_ok`, `put_ok` say which function does what.
-/

namespace Cortos.Memory

open Lib

variable {γ ν α ρ : Type}

/-! ## Sound `Function`s -/

/-- The table of a `Function` describes its storage. -/
inductive Sound (heap : Nat → Option (CallableObject γ ν)) : FunctionObject γ ν → Prop
  | raw : Sound heap ⟨none, .raw⟩
  | null : Sound heap ⟨none, .heapPtr none⟩
  | inline (o : CallableObject γ ν) : Sound heap ⟨some ⟨o.type, false⟩, .inlineStorage o⟩
  | heap {p : Nat} {o : CallableObject γ ν} (hp : heap p = some o) :
    Sound heap ⟨some ⟨o.type, true⟩, .heapPtr (some p)⟩

/-- Other blocks of the heap do not matter. -/
theorem Sound.congr {heap heap' : Nat → Option (CallableObject γ ν)} {f : FunctionObject γ ν}
    (h : Sound heap f) (hheap : ∀ p, f.storage = .heapPtr (some p) → heap' p = heap p) :
    Sound heap' f := by
  cases h with
  | raw => exact .raw
  | null => exact .null
  | inline o => exact .inline o
  | heap hp => exact .heap ((hheap _ rfl).trans hp)

namespace Store

variable {s s' : Store γ ν ρ} {i : Nat}

theorem function_eq {f : FunctionObject γ ν} (h : s.object i = some f) :
    s.function i = .ok f := by
  rw [function, h]

theorem object_of_create (h : s.create i = .ok s') :
    s.object i = none ∧ s' = s.setFunction i {} := by
  rw [create] at h
  split at h
  · cases h
  · next hi => exact ⟨by simpa using hi, (Except.ok.inj h).symm⟩

theorem heap_of_place {T : FunctionType} {K : Callables γ ν α ρ} {F : γ} {v : ν} {p : Nat}
    (h : s.place T K i F v p = .ok s') (huse : T.useHeap (K.size F) = true) : s.heap p = none := by
  rw [place, if_pos huse] at h
  split at h
  · cases h
  · next hp => simpa using hp

theorem object_of_bind {β : Type} {k : FunctionObject γ ν → Except FunctionFault β} {b : β}
    (h : (s.function i >>= k) = .ok b) : ∃ f, s.object i = some f ∧ k f = .ok b := by
  cases hi : s.object i with
  | some f =>
    rw [function_eq hi] at h
    exact ⟨f, rfl, h⟩
  | none =>
    rw [function, hi] at h
    cases h

/-- The other `Function`s do not use the blocks that a step changes. -/
def Frame (s : Store γ ν ρ) (i : Nat) (heap' : Nat → Option (CallableObject γ ν)) : Prop :=
  ∀ {j f p}, j ≠ i → s.object j = some f → f.storage = .heapPtr (some p) → heap' p = s.heap p

theorem sound_update {e : Option (FunctionObject γ ν)}
    (h : ∀ {j g}, s.object j = some g → Sound s.heap g)
    (hobject : s'.object = Function.update s.object i e) (hframe : s.Frame i s'.heap)
    (he : ∀ f ∈ e, Sound s'.heap f) {j : Nat} {g : FunctionObject γ ν}
    (hg : s'.object j = some g) : Sound s'.heap g := by
  rw [hobject] at hg
  by_cases hj : j = i
  · rw [hj, Function.update_self] at hg
    exact he g hg
  · rw [Function.update_of_ne hj] at hg
    exact (h hg).congr fun p hp => hframe hj hg hp

end Store

variable [DecidableEq γ]

theorem VTable.get_inline (heap : Nat → Option (CallableObject γ ν)) (o : CallableObject γ ν) :
    VTable.get ⟨o.type, false⟩ heap (.inlineStorage o) = .ok o := by
  simp [get, find]

theorem VTable.get_heap {heap : Nat → Option (CallableObject γ ν)} {p : Nat}
    {o : CallableObject γ ν} (hp : heap p = some o) :
    VTable.get ⟨o.type, true⟩ heap (.heapPtr (some p)) = .ok o := by
  simp [get, find, hp]

theorem FunctionObject.target_congr {heap heap' : Nat → Option (CallableObject γ ν)}
    {f : FunctionObject γ ν} (hheap : ∀ p, f.storage = .heapPtr (some p) → heap' p = heap p) :
    f.target heap' = f.target heap := by
  obtain ⟨_ | ⟨type, onHeap⟩, storage⟩ := f
  · rfl
  · have hfind : VTable.find ⟨type, onHeap⟩ heap' storage =
        VTable.find ⟨type, onHeap⟩ heap storage := by
      rcases storage with _ | o | _ | p
      case heapPtr.some =>
        show (if onHeap then heap' p else none) = if onHeap then heap p else none
        rw [hheap p rfl]
      all_goals rfl
    show (VTable.get _ heap' _).toOption = (VTable.get _ heap _).toOption
    rw [VTable.get, VTable.get, hfind]

theorem FunctionObject.target_inline (heap : Nat → Option (CallableObject γ ν))
    (o : CallableObject γ ν) :
    FunctionObject.target ⟨some ⟨o.type, false⟩, .inlineStorage o⟩ heap = some o := by
  show (VTable.get _ _ _).toOption = _
  rw [VTable.get_inline]
  rfl

theorem FunctionObject.target_heap {heap : Nat → Option (CallableObject γ ν)} {p : Nat}
    {o : CallableObject γ ν} (hp : heap p = some o) :
    FunctionObject.target ⟨some ⟨o.type, true⟩, .heapPtr (some p)⟩ heap = some o := by
  show (VTable.get _ _ _).toOption = _
  rw [VTable.get_heap hp]
  rfl

/-- A sound `Function` is empty exactly when `operator bool` says so. -/
theorem Sound.operatorBool {heap : Nat → Option (CallableObject γ ν)} {f : FunctionObject γ ν}
    (h : Sound heap f) : f.operatorBool = (f.target heap).isSome := by
  cases h with
  | raw | null => rfl
  | inline o => rw [FunctionObject.target_inline]; rfl
  | heap hp => rw [FunctionObject.target_heap hp]; rfl

namespace Store

variable {s s' : Store γ ν ρ} {i j : Nat} {f g : FunctionObject γ ν}

theorem target_eq (h : s.object i = some f) : s.target i = f.target s.heap := by
  rw [target, h]
  rfl

/-! ## The invariant -/

/-- The numbers of the objects that are held. -/
def held (s : Store γ ν ρ) : Nat → Option Nat := Option.map CallableObject.id ∘ s.target

theorem held_of_target {o : CallableObject γ ν} (h : s.target i = some o) :
    s.held i = some o.id := by
  rw [held, Function.comp_apply, h]
  rfl

/-- Every `Function` is sound, each block of the heap belongs to one, and all objects are
accounted for. -/
structure Ok (s : Store γ ν ρ) : Prop where
  sound : ∀ {i f}, s.object i = some f → Sound s.heap f
  blocks : ∀ {p o}, s.heap p = some o →
    ∃ i f, s.object i = some f ∧ f.storage = .heapPtr (some p)
  lifetimes : Lifetimes s.held s.constructed s.destroyed

/-- Two `Function`s do not share a block. -/
theorem Ok.pointer_unique (h : s.Ok) {p : Nat} (hi : s.object i = some f)
    (hj : s.object j = some g) (hf : f.storage = .heapPtr (some p))
    (hg : g.storage = .heapPtr (some p)) : i = j := by
  have hheld : ∀ {k f}, s.object k = some f → f.storage = .heapPtr (some p) →
      ∃ o, s.heap p = some o ∧ s.held k = some o.id := by
    intro k f hk hf
    cases h.sound hk with
    | @heap q o hq =>
      obtain rfl : q = p := by simpa using hf
      exact ⟨o, hq, held_of_target ((target_eq hk).trans (FunctionObject.target_heap hq))⟩
    | _ => cases hf
  obtain ⟨o, ho, hi⟩ := hheld hi hf
  obtain ⟨o', ho', hj⟩ := hheld hj hg
  rw [ho] at ho'
  cases ho'
  exact h.lifetimes.unique hi hj

/-- The block of a `Function` may change. -/
theorem Ok.frame_own (h : s.Ok) {p : Nat} (hi : s.object i = some f)
    (hf : f.storage = .heapPtr (some p)) (b : Option (CallableObject γ ν)) :
    s.Frame i (Function.update s.heap p b) := by
  intro j g q hj hg hq
  refine Function.update_of_ne ?_ _ _
  rintro rfl
  exact hj (h.pointer_unique hg hi hq hf)

/-- So may a block that nobody uses. -/
theorem Ok.frame_free (h : s.Ok) {p : Nat} (hp : s.heap p = none)
    (b : Option (CallableObject γ ν)) : s.Frame i (Function.update s.heap p b) := by
  intro j g q hj hg hq
  refine Function.update_of_ne ?_ _ _
  rintro rfl
  cases h.sound hg with
  | heap hq' =>
    obtain rfl := by simpa using hq
    rw [hp] at hq'
    cases hq'
  | _ => cases hq

/-- What is held after a step that changes the `Function` at `i`. -/
theorem target_update {e : Option (FunctionObject γ ν)}
    (hobject : s'.object = Function.update s.object i e) (hframe : s.Frame i s'.heap) :
    s'.target = Function.update s.target i (e.bind fun f => f.target s'.heap) := by
  funext j
  by_cases hj : j = i
  · rw [hj, Function.update_self, target, hobject, Function.update_self]
  · rw [Function.update_of_ne hj, target, target, hobject, Function.update_of_ne hj]
    cases hg : s.object j with
    | none => rfl
    | some g => exact FunctionObject.target_congr fun p hp => hframe hj hg hp

theorem held_update {o : Option (CallableObject γ ν)}
    (h : s'.target = Function.update s.target i o) :
    s'.held = Function.update s.held i (o.map CallableObject.id) := by
  rw [held, h, Function.comp_update]
  rfl

/-- A step that changes the `Function` at `i`. -/
theorem Ok.update (h : s.Ok) {e : Option (FunctionObject γ ν)}
    (hobject : s'.object = Function.update s.object i e) (hframe : s.Frame i s'.heap)
    (he : ∀ f ∈ e, Sound s'.heap f)
    (hblocks : ∀ {p o}, s'.heap p = some o → (∃ f ∈ e, f.storage = .heapPtr (some p)) ∨
      s.heap p = some o ∧ ∀ f, s.object i = some f → f.storage ≠ .heapPtr (some p))
    (hlifetimes : Lifetimes s'.held s'.constructed s'.destroyed) : s'.Ok where
  sound := sound_update h.sound hobject hframe he
  lifetimes := hlifetimes
  blocks := by
    intro p o hp
    rcases hblocks hp with ⟨f, hf, hstorage⟩ | ⟨hold, hother⟩
    · refine ⟨i, f, ?_, hstorage⟩
      rw [hobject, Function.update_self, hf]
    · obtain ⟨j, g, hj, hstorage⟩ := h.blocks hold
      have hji : j ≠ i := by
        rintro rfl
        exact hother g hj hstorage
      refine ⟨j, g, ?_, hstorage⟩
      rw [hobject, Function.update_of_ne hji, hj]

/-! ## One `Function` -/

/-- The `Function` at `i` now holds `o`, and the others hold what they did. -/
structure Sets (s : Store γ ν ρ) (i : Nat) (o : Option (CallableObject γ ν)) (s' : Store γ ν ρ) :
    Prop where
  object : ∃ f, s'.object = Function.update s.object i (some f)
  target : s'.target = Function.update s.target i o
  output : s'.output = s.output
  ok : s'.Ok

theorem Sets.view {o : Option (CallableObject γ ν)} (h : Sets s i o s') :
    s'.view = s.view.set i (o.map CallableObject.callable) := by
  obtain ⟨f, hobject⟩ := h.object
  refine Slots.ext (funext fun j => ?_) h.output
  show (s'.object j).map _ = Function.update s.view.slot i _ j
  rw [hobject, h.target]
  by_cases hj : j = i
  · rw [hj, Function.update_self, Function.update_self, Function.update_self]
    rfl
  · rw [Function.update_of_ne hj, Function.update_of_ne hj, Function.update_of_ne hj]
    rfl

/-- A step that changes the `Function` at `i` to `f`: it holds what `f` holds. -/
theorem Ok.sets (h : s.Ok) (s' : Store γ ν ρ)
    (hobject : s'.object = Function.update s.object i (some f))
    (hframe : s.Frame i s'.heap) (hsound : Sound s'.heap f)
    (hblocks : ∀ {p o}, s'.heap p = some o → f.storage = .heapPtr (some p) ∨
      s.heap p = some o ∧ ∀ g, s.object i = some g → g.storage ≠ .heapPtr (some p))
    (houtput : s'.output = s.output)
    (hlifetimes : s'.held = Function.update s.held i ((f.target s'.heap).map CallableObject.id) →
      Lifetimes s'.held s'.constructed s'.destroyed) : Sets s i (f.target s'.heap) s' := by
  have htarget := target_update hobject hframe
  refine ⟨⟨f, hobject⟩, htarget, houtput, ?_⟩
  refine h.update hobject hframe ?_ ?_ (hlifetimes (held_update htarget))
  · rintro _ ⟨⟩
    exact hsound
  · intro p o hp
    rcases hblocks hp with hf | hold
    · exact .inl ⟨f, rfl, hf⟩
    · exact .inr hold

/-- A new `Function` is empty. -/
theorem create_ok (h : s.Ok) (hi : s.object i = none) :
    s.create i = .ok (s.setFunction i {}) ∧ Sets s i none (s.setFunction i {}) := by
  have hnone : s.held i = none := by
    rw [held, Function.comp_apply, target, hi]
    rfl
  refine ⟨by simp [create, hi], h.sets (s.setFunction i {}) (f := {}) rfl ?_ .raw ?_ rfl ?_⟩
  · exact fun _ _ _ => rfl
  · intro p o hp
    refine .inr ⟨hp, fun g hg => ?_⟩
    rw [hi] at hg
    cases hg
  · intro hheld
    have hsame : Function.update s.held i none = s.held :=
      Function.update_eq_self_iff.mpr hnone.symm
    rw [hheld]
    exact hsame.symm ▸ h.lifetimes

/-- What a `Function` held is destroyed when it is emptied. -/
theorem Ok.released (h : s.Ok) {o : CallableObject γ ν} (ho : s.target i = some o) :
    Lifetimes (Function.update s.held i none) s.constructed (s.destroyed ++ [o.id]) := by
  have hrelease := h.lifetimes.release i
  rwa [held_of_target ho] at hrelease

/-- Emptying an empty `Function`. -/
theorem Ok.sets_none (h : s.Ok) (hi : s.object i = some f) (hnone : s.target i = none) :
    Sets s i none s where
  object := ⟨f, (Function.update_eq_self_iff.mpr hi.symm).symm⟩
  target := (Function.update_eq_self_iff.mpr hnone.symm).symm
  output := rfl
  ok := h

/-- **`reset` destroys the callable**, and frees its block. -/
theorem reset_ok (h : s.Ok) (hi : s.object i = some f) :
    ∃ s', s.reset i = .ok s' ∧ Sets s i none s' ∧
      ∀ p, s'.heap p = none ↔ s.heap p = none ∨ f.storage = .heapPtr (some p) := by
  have htarget := target_eq hi
  have hsound := h.sound hi
  cases hsound with
  | raw | null =>
    refine ⟨s, ?_, h.sets_none hi htarget, fun p => by simp⟩
    rw [reset, function_eq hi]
    rfl
  | inline o =>
    rw [FunctionObject.target_inline] at htarget
    refine ⟨{ s.setFunction i ⟨none, .raw⟩ with destroyed := s.destroyed ++ [o.id] }, ?_,
      h.sets _ (f := ⟨none, .raw⟩) rfl ?_ .raw ?_ rfl ?_, fun p => ?_⟩
    · simp [reset, vtableDestroy, function, hi, VTable.get_inline, setFunction, bind,
        Except.bind, pure, Except.pure]
    · exact fun _ _ _ => rfl
    · intro p b hp
      refine .inr ⟨hp, fun g hg => ?_⟩
      rw [hi] at hg
      cases hg
      nofun
    · intro hheld
      rw [hheld]
      exact h.released htarget
    · show s.heap p = none ↔ _
      simp
  | @heap p o hp =>
    rw [FunctionObject.target_heap hp] at htarget
    refine ⟨{ s.setFunction i ⟨none, .heapPtr none⟩ with
        heap := Function.update s.heap p none
        destroyed := s.destroyed ++ [o.id] }, ?_,
      h.sets _ (f := ⟨none, .heapPtr none⟩) rfl (h.frame_own hi rfl none) .null ?_ rfl ?_,
      fun q => ?_⟩
    · simp [reset, vtableDestroy, function, hi, VTable.get_heap hp, setFunction, bind,
        Except.bind, pure, Except.pure]
    · intro q b hq
      have hq : Function.update s.heap p none q = some b := hq
      have hqp : q ≠ p := by
        rintro rfl
        rw [Function.update_self] at hq
        cases hq
      rw [Function.update_of_ne hqp] at hq
      refine .inr ⟨hq, fun g hg => ?_⟩
      rw [hi] at hg
      cases hg
      simpa using hqp.symm
    · intro hheld
      rw [hheld]
      exact h.released htarget
    · show Function.update s.heap p none q = none ↔ _
      by_cases hqp : q = p
      · rw [hqp, Function.update_self]
        simp
      · rw [Function.update_of_ne hqp]
        simp [Ne.symm hqp]

/-- An empty `Function` has no block. -/
theorem Ok.empty_storage (h : s.Ok) {storage : Storage γ ν}
    (hi : s.object i = some ⟨none, storage⟩) (p : Nat) : storage ≠ .heapPtr (some p) := by
  cases h.sound hi <;> nofun

theorem held_empty {storage : Storage γ ν} (hi : s.object i = some ⟨none, storage⟩) :
    s.held i = none := by
  rw [held, Function.comp_apply, target_eq hi]
  rfl

/-- **The end of `emplace` constructs a callable** in an empty `Function`. -/
theorem place_ok (T : FunctionType) (K : Callables γ ν α ρ) (h : s.Ok)
    {storage : Storage γ ν} (hi : s.object i = some ⟨none, storage⟩) (F : γ) (v : ν) {p : Nat}
    (hp : T.useHeap (K.size F) = true → s.heap p = none) :
    ∃ s', s.place T K i F v p = .ok s' ∧ Sets s i (some ⟨s.constructed, F, v⟩) s' := by
  have hconstruct := h.lifetimes.construct (held_empty hi)
  obtain ⟨o, ho⟩ : ∃ o : CallableObject γ ν, o = ⟨s.constructed, F, v⟩ := ⟨_, rfl⟩
  have hother : ∀ q g, s.object i = some g → g.storage ≠ .heapPtr (some q) := by
    intro q g hg
    rw [hi] at hg
    cases hg
    exact h.empty_storage hi q
  cases hheap : T.useHeap (K.size F) with
  | true =>
    have hfree := hp hheap
    have hself : Function.update s.heap p (some o) p = some o := Function.update_self ..
    have hsets := h.sets { s.setFunction i ⟨some ⟨o.type, true⟩, .heapPtr (some p)⟩ with
        heap := Function.update s.heap p (some o)
        constructed := s.constructed + 1 } rfl (h.frame_free hfree _) (.heap hself) ?_ rfl ?_
    · rw [FunctionObject.target_heap hself] at hsets
      refine ⟨_, ?_, ho ▸ hsets⟩
      rw [place, if_pos hheap, hfree]
      subst ho
      rfl
    · intro q b hq
      by_cases hqp : q = p
      · exact .inl (by rw [hqp])
      · exact .inr ⟨(Function.update_of_ne hqp ..).symm.trans hq, hother q⟩
    · intro hheld
      rw [hheld, FunctionObject.target_heap hself, ho]
      exact hconstruct
  | false =>
    have hsets := h.sets { s.setFunction i ⟨some ⟨o.type, false⟩, .inlineStorage o⟩ with
        constructed := s.constructed + 1 } rfl (fun _ _ _ => rfl) (.inline o) ?_ rfl ?_
    · rw [FunctionObject.target_inline] at hsets
      refine ⟨_, ?_, ho ▸ hsets⟩
      rw [place, hheap]
      subst ho
      rfl
    · intro q b hq
      exact .inr ⟨hq, hother q⟩
    · intro hheld
      rw [hheld, FunctionObject.target_inline, ho]
      exact hconstruct

/-! ## Moving -/

/-- The callable of the `Function` at `j` has gone to the one at `i`. -/
structure Moves (s : Store γ ν ρ) (i j : Nat) (s' : Store γ ν ρ) : Prop where
  object : ∃ f g, s'.object = Function.update (Function.update s.object i (some f)) j (some g)
  target : ∃ o, s'.target = Function.update (Function.update s.target i o) j none ∧
    o.map CallableObject.callable = (s.target j).map CallableObject.callable
  output : s'.output = s.output
  ok : s'.Ok

theorem Moves.view (h : Moves s i j s') (hj : s.object j = some g) :
    s'.view = s.view.move i j := by
  obtain ⟨f, g', hobject⟩ := h.object
  obtain ⟨o, htarget, ho⟩ := h.target
  have hcallable : (s.view.slot j).getD none = o.map CallableObject.callable := by
    rw [ho]
    show ((s.object j).map _).getD none = _
    rw [hj]
    rfl
  refine Slots.ext (funext fun k => ?_) h.output
  show (s'.object k).map _ =
    Function.update (Function.update s.view.slot i (some ((s.view.slot j).getD none))) j _ k
  rw [hobject, htarget, hcallable]
  by_cases hkj : k = j
  · rw [hkj, Function.update_self, Function.update_self, Function.update_self]
    rfl
  · rw [Function.update_of_ne hkj, Function.update_of_ne hkj, Function.update_of_ne hkj]
    by_cases hki : k = i
    · rw [hki, Function.update_self, Function.update_self, Function.update_self]
      rfl
    · rw [Function.update_of_ne hki, Function.update_of_ne hki, Function.update_of_ne hki]
      rfl

/-- An empty `Function` and another one change, and the heap does not: the block of the other
one, if it has one, changes hands. -/
theorem Ok.moves (h : s.Ok) (hij : i ≠ j) {storage : Storage γ ν}
    (hi : s.object i = some ⟨none, storage⟩) {g₀ : FunctionObject γ ν}
    (hj : s.object j = some g₀) (s' : Store γ ν ρ)
    (hobject : s'.object = Function.update (Function.update s.object i (some f)) j (some g))
    (hheap : s'.heap = s.heap) (hf : Sound s.heap f) (hg : Sound s.heap g)
    (hempty : g.target s.heap = none)
    (hcallable : (f.target s.heap).map CallableObject.callable =
      (s.target j).map CallableObject.callable)
    (houtput : s'.output = s.output)
    (hblock : ∀ {p}, g₀.storage = .heapPtr (some p) → f.storage = .heapPtr (some p))
    (hlifetimes : s'.held = Function.update
        (Function.update s.held i ((f.target s.heap).map CallableObject.id)) j none →
      Lifetimes s'.held s'.constructed s'.destroyed) : Moves s i j s' := by
  -- the first change by itself
  obtain ⟨s₁, hs₁⟩ : ∃ s₁ : Store γ ν ρ, s₁ = s.setFunction i f := ⟨_, rfl⟩
  have hobject₁ : s₁.object = Function.update s.object i (some f) := by rw [hs₁]; rfl
  have hheap₁ : s₁.heap = s.heap := by rw [hs₁]; rfl
  have hframe₁ : s.Frame i s₁.heap := fun _ _ _ => by rw [hheap₁]
  have hframe : s₁.Frame j s'.heap := fun _ _ _ => by rw [hheap, hheap₁]
  have hobject' : s'.object = Function.update s₁.object j (some g) := by rw [hobject, hobject₁]
  have htarget₁ : s₁.target = Function.update s.target i (f.target s.heap) := by
    rw [target_update hobject₁ hframe₁, hheap₁]
    rfl
  have htarget : s'.target = Function.update s₁.target j none := by
    rw [target_update hobject' hframe, hheap]
    exact congrArg (Function.update s₁.target j) hempty
  refine ⟨⟨f, g, hobject⟩, ⟨_, by rw [htarget, htarget₁], hcallable⟩, houtput, ?_, ?_, ?_⟩
  · refine sound_update (sound_update h.sound hobject₁ hframe₁ ?_) hobject' hframe ?_
    · rintro _ ⟨⟩
      rwa [hheap₁]
    · rintro _ ⟨⟩
      rwa [hheap]
  · intro p o hp
    rw [hheap] at hp
    obtain ⟨k, e, hk, he⟩ := h.blocks hp
    have hki : k ≠ i := by
      rintro rfl
      rw [hi] at hk
      cases hk
      exact h.empty_storage hi p he
    by_cases hkj : k = j
    · subst hkj
      rw [hj] at hk
      cases hk
      refine ⟨i, f, ?_, hblock he⟩
      rw [hobject, Function.update_of_ne hij, Function.update_self]
    · refine ⟨k, e, ?_, he⟩
      rw [hobject, Function.update_of_ne hkj, Function.update_of_ne hki, hk]
  · refine hlifetimes ?_
    rw [held_update htarget, held_update htarget₁]
    rfl

/-- Nothing is moved from an empty `Function` to another one. -/
theorem Ok.moves_none (h : s.Ok) (hi : s.object i = some f) (hj : s.object j = some g)
    (hfrom : s.target j = none) (hto : s.target i = none) : Moves s i j s where
  object := by
    have hsame : Function.update s.object i (some f) = s.object :=
      Function.update_eq_self_iff.mpr hi.symm
    refine ⟨f, g, ?_⟩
    rw [hsame, Function.update_eq_self_iff.mpr hj.symm]
  target := by
    have hsame : Function.update s.target i none = s.target :=
      Function.update_eq_self_iff.mpr hto.symm
    refine ⟨none, ?_, by rw [hfrom]⟩
    rw [hsame, Function.update_eq_self_iff.mpr hfrom.symm]
  output := rfl
  ok := h

/-- Two `Function`s are written twice. -/
theorem update_pair {β : Type} {o : Nat → β} {a b a' b' : β} (hij : i ≠ j) :
    Function.update (Function.update (Function.update (Function.update o i a) j b) i a') j b' =
      Function.update (Function.update o i a') j b' := by
  rw [Function.update_comm hij.symm, Function.update_idem, Function.update_idem]

/-- **`move_from` moves the callable**: a block changes hands, and an object in the buffer is
replaced by a new one. -/
theorem moveFrom_ok (h : s.Ok) (hij : i ≠ j) {storage : Storage γ ν}
    (hi : s.object i = some ⟨none, storage⟩) (hj : s.object j = some g) :
    ∃ s', s.moveFrom i j = .ok s' ∧ Moves s i j s' := by
  have htarget := target_eq hj
  have hsound := h.sound hj
  cases hsound with
  | raw | null =>
    have hempty : s.target i = none := by
      rw [target_eq hi]
      rfl
    have hsame : s.setFunction i ⟨none, storage⟩ = s := by
      rw [setFunction, Function.update_eq_self_iff.mpr hi.symm]
    refine ⟨s, ?_, h.moves_none hi hj htarget hempty⟩
    rw [moveFrom, function_eq hj]
    show (s.function i >>= fun f => pure (s.setFunction i { f with vtable := none })) = _
    rw [function_eq hi]
    exact congrArg Except.ok hsame
  | inline o =>
    rw [FunctionObject.target_inline] at htarget
    obtain ⟨new, hnew⟩ : ∃ new, new = { o with id := s.constructed } := ⟨_, rfl⟩
    refine ⟨{ (s.setFunction i ⟨some ⟨new.type, false⟩, .inlineStorage new⟩).setFunction j
        ⟨none, .raw⟩ with
        constructed := s.constructed + 1
        destroyed := s.destroyed ++ [o.id] }, ?_,
      h.moves hij hi hj _ rfl rfl (.inline new) .raw rfl ?_ rfl nofun fun hheld => ?_⟩
    · simp [moveFrom, vtableMove, moveCallable, function, hi, hj, hij, setFunction, bind,
        Except.bind, pure, Except.pure, VTable.get_inline, update_pair hij, hnew]
    · rw [FunctionObject.target_inline, htarget, hnew]
      rfl
    · -- the new object is constructed before the old one is destroyed
      have hlife := (h.lifetimes.construct (held_empty hi)).release j
      rw [Function.update_of_ne hij.symm, held_of_target htarget] at hlife
      rw [hheld, FunctionObject.target_inline, hnew]
      exact hlife
  | @heap p o hp =>
    rw [FunctionObject.target_heap hp] at htarget
    refine ⟨(s.setFunction i ⟨some ⟨o.type, true⟩, .heapPtr (some p)⟩).setFunction j
        ⟨none, .heapPtr none⟩, ?_,
      h.moves hij hi hj _ rfl rfl (.heap hp) .null rfl ?_ rfl id fun hheld => ?_⟩
    · simp [moveFrom, vtableMove, moveCallable, function, hi, hj, hij, setFunction, bind,
        Except.bind, pure, Except.pure, update_pair hij]
    · rw [FunctionObject.target_heap hp, htarget]
    · have hlife := h.lifetimes.transfer (l := j) (held_empty hi)
      rw [held_of_target htarget] at hlife
      rw [hheld, FunctionObject.target_heap hp]
      exact hlife

/-! ## Calling -/

/-- A call changes the value of the callable, and nothing else. -/
theorem put_ok (h : s.Ok) (hi : s.object i = some f) {o : CallableObject γ ν}
    (ho : s.target i = some o) (v : ν) : Sets s i (some { o with value := v })
      (s.put i f { o with value := v }) := by
  have hsame : Function.update s.held i (some o.id) = s.held :=
    Function.update_eq_self_iff.mpr (held_of_target ho).symm
  have htarget := target_eq hi
  have hsound := h.sound hi
  obtain ⟨new, hnew⟩ : ∃ new, new = { o with value := v } := ⟨_, rfl⟩
  rw [← hnew]
  cases hsound with
  | raw | null =>
    rw [ho] at htarget
    cases htarget
  | inline b =>
    rw [FunctionObject.target_inline, ho] at htarget
    cases htarget
    have hsets := h.sets (s.setFunction i ⟨some ⟨new.type, false⟩, .inlineStorage new⟩) rfl
      (fun _ _ _ => rfl) (.inline new) ?_ rfl ?_
    · rw [FunctionObject.target_inline, hnew] at hsets
      rw [hnew]
      exact hsets
    · intro p b hp
      refine .inr ⟨hp, fun g hg => ?_⟩
      rw [hi] at hg
      cases hg
      nofun
    · intro hheld
      rw [hheld, FunctionObject.target_inline, hnew]
      exact hsame.symm ▸ h.lifetimes
  | @heap p b hp =>
    rw [FunctionObject.target_heap hp, ho] at htarget
    cases htarget
    have hself : Function.update s.heap p (some new) p = some new := Function.update_self ..
    have hobject : s.object =
        Function.update s.object i (some ⟨some ⟨new.type, true⟩, .heapPtr (some p)⟩) := by
      rw [hnew]
      exact (Function.update_eq_self_iff.mpr hi.symm).symm
    have hsets := h.sets { s with heap := Function.update s.heap p (some new) } hobject
      (h.frame_own hi rfl (some new)) (.heap hself) ?_ rfl ?_
    · rwa [FunctionObject.target_heap hself] at hsets
    · intro q b hq
      by_cases hqp : q = p
      · exact .inl (by rw [hqp])
      · refine .inr ⟨(Function.update_of_ne hqp ..).symm.trans hq, fun g hg => ?_⟩
        rw [hi] at hg
        cases hg
        simpa using Ne.symm hqp
    · intro hheld
      rw [hheld, FunctionObject.target_heap hself, hnew]
      exact hsame.symm ▸ h.lifetimes

end Store

end Cortos.Memory
