import Mathlib.Data.List.Nodup
import Mathlib.Logic.Equiv.Basic

/-!
# Objects that are constructed, held and destroyed

Objects are numbered in the order in which they are constructed. An owner holds one object or
none; objects pass from owner to owner and are destroyed. `Lifetimes` says that the owners and
the record of what has been destroyed account for every object: each one is held by one owner,
or it has been destroyed once.

- `Lifetimes.construct`, `Lifetimes.release`, `Lifetimes.transfer`: what the three moves keep;
- `Lifetimes.held_or_destroyed`: what they are for.
-/

namespace Cortos.Lib

universe u

variable {κ : Type u}

/-- The objects below `constructed` are accounted for by the owners and by what has been
destroyed. -/
structure Lifetimes (held : κ → Option Nat) (constructed : Nat) (destroyed : List Nat) :
    Prop where
  unique : ∀ {k l x}, held k = some x → held l = some x → k = l
  held_lt : ∀ {k x}, held k = some x → x < constructed
  not_destroyed : ∀ {k x}, held k = some x → x ∉ destroyed
  covered : ∀ {x}, x < constructed → x ∉ destroyed → ∃ k, held k = some x
  nodup : destroyed.Nodup
  destroyed_lt : ∀ {x}, x ∈ destroyed → x < constructed

namespace Lifetimes

/-- Nothing has been constructed. -/
theorem empty : Lifetimes (fun _ : κ => none) 0 [] where
  unique := nofun
  held_lt := nofun
  not_destroyed := nofun
  covered h := absurd h (Nat.not_lt_zero _)
  nodup := List.nodup_nil
  destroyed_lt := nofun

variable {held : κ → Option Nat} {constructed : Nat} {destroyed : List Nat} {k l : κ}

/-- **Each object is held by exactly one owner and has not been destroyed, or it is held by
none and has been destroyed once.** -/
theorem held_or_destroyed (h : Lifetimes held constructed destroyed) {x : Nat}
    (hx : x < constructed) :
    (∃! k, held k = some x) ∧ destroyed.count x = 0 ∨
      (∀ k, held k ≠ some x) ∧ destroyed.count x = 1 := by
  by_cases hxd : x ∈ destroyed
  · exact .inr ⟨fun k hk => h.not_destroyed hk hxd, List.count_eq_one_of_mem h.nodup hxd⟩
  · obtain ⟨k, hk⟩ := h.covered hx hxd
    exact .inl ⟨⟨k, hk, fun l hl => h.unique hl hk⟩, List.count_eq_zero_of_not_mem hxd⟩

variable [DecidableEq κ]

/-- An owner that holds nothing constructs an object. -/
theorem construct (h : Lifetimes held constructed destroyed) (hk : held k = none) :
    Lifetimes (Function.update held k (some constructed)) (constructed + 1) destroyed := by
  -- what is held afterwards is the new object, or was held before by another owner
  have hold : ∀ {l x}, Function.update held k (some constructed) l = some x →
      l = k ∧ x = constructed ∨ l ≠ k ∧ held l = some x := by
    intro l x hl
    by_cases hlk : l = k
    · subst hlk
      rw [Function.update_self] at hl
      exact .inl ⟨rfl, (Option.some.inj hl).symm⟩
    · rw [Function.update_of_ne hlk] at hl
      exact .inr ⟨hlk, hl⟩
  refine ⟨?_, ?_, ?_, ?_, h.nodup, fun hx => Nat.lt_succ_of_lt (h.destroyed_lt hx)⟩
  · intro l l' x hl hl'
    rcases hold hl with ⟨hlk, hx⟩ | ⟨-, hl₀⟩ <;> rcases hold hl' with ⟨hlk', hx'⟩ | ⟨-, hl₀'⟩
    · rw [hlk, hlk']
    · exact absurd (h.held_lt hl₀') (by omega)
    · exact absurd (h.held_lt hl₀) (by omega)
    · exact h.unique hl₀ hl₀'
  · intro l x hl
    rcases hold hl with ⟨-, hx⟩ | ⟨-, hl⟩
    · omega
    · exact Nat.lt_succ_of_lt (h.held_lt hl)
  · intro l x hl hx
    rcases hold hl with ⟨-, rfl⟩ | ⟨-, hl⟩
    · exact absurd (h.destroyed_lt hx) (Nat.lt_irrefl _)
    · exact h.not_destroyed hl hx
  · intro x hx hxd
    rcases Nat.lt_or_eq_of_le (Nat.le_of_lt_succ hx) with hlt | rfl
    · obtain ⟨l, hl⟩ := h.covered hlt hxd
      refine ⟨l, ?_⟩
      rwa [Function.update_of_ne]
      rintro rfl
      rw [hk] at hl
      cases hl
    · exact ⟨k, Function.update_self ..⟩

/-- An owner destroys what it holds, if anything. -/
theorem release (h : Lifetimes held constructed destroyed) (k : κ) :
    Lifetimes (Function.update held k none) constructed (destroyed ++ (held k).toList) := by
  have hold : ∀ {l x}, Function.update held k none l = some x → l ≠ k ∧ held l = some x := by
    intro l x hl
    by_cases hlk : l = k
    · rw [hlk, Function.update_self] at hl
      cases hl
    · rw [Function.update_of_ne hlk] at hl
      exact ⟨hlk, hl⟩
  refine ⟨?_, fun hl => h.held_lt (hold hl).2, ?_, ?_, ?_, ?_⟩
  · intro l l' x hl hl'
    exact h.unique (hold hl).2 (hold hl').2
  · intro l x hl hx
    obtain ⟨hlk, hl⟩ := hold hl
    rcases List.mem_append.mp hx with hx | hx
    · exact h.not_destroyed hl hx
    · exact hlk (h.unique hl (Option.mem_toList.mp hx))
  · intro x hx hxd
    rw [List.mem_append, not_or] at hxd
    obtain ⟨l, hl⟩ := h.covered hx hxd.1
    refine ⟨l, ?_⟩
    rwa [Function.update_of_ne]
    rintro rfl
    exact hxd.2 (Option.mem_toList.mpr hl)
  · cases hk : held k with
    | none => simpa using h.nodup
    | some x =>
      rw [Option.toList_some, List.nodup_append]
      refine ⟨h.nodup, List.nodup_singleton x, fun y hy z hz => ?_⟩
      obtain rfl := List.mem_singleton.mp hz
      rintro rfl
      exact h.not_destroyed hk hy
  · intro x hx
    rcases List.mem_append.mp hx with hx | hx
    · exact h.destroyed_lt hx
    · exact h.held_lt (Option.mem_toList.mp hx)

/-- An object passes from one owner to another that holds nothing. -/
theorem transfer (h : Lifetimes held constructed destroyed) (hk : held k = none) :
    Lifetimes (Function.update (Function.update held k (held l)) l none) constructed
      destroyed := by
  -- owners afterwards are owners before, with `k` in the place of `l`
  have hswap : Function.update (Function.update held k (held l)) l none =
      held ∘ Equiv.swap k l := by
    funext j
    by_cases hjl : j = l
    · rw [hjl, Function.update_self, Function.comp_apply, Equiv.swap_apply_right, hk]
    · rw [Function.update_of_ne hjl]
      by_cases hjk : j = k
      · rw [hjk, Function.update_self, Function.comp_apply, Equiv.swap_apply_left]
      · rw [Function.update_of_ne hjk, Function.comp_apply, Equiv.swap_apply_of_ne_of_ne hjk hjl]
  rw [hswap]
  refine ⟨?_, fun hj => h.held_lt hj, fun hj => h.not_destroyed hj, ?_, h.nodup,
    h.destroyed_lt⟩
  · intro i j x hi hj
    exact (Equiv.swap k l).injective (h.unique hi hj)
  · intro x hx hxd
    obtain ⟨j, hj⟩ := h.covered hx hxd
    refine ⟨Equiv.swap k l j, ?_⟩
    rwa [Function.comp_apply, Equiv.swap_apply_self]

end Lifetimes

end Cortos.Lib
