import Mathlib.Data.List.Perm.Subperm
import Cortos.Time.ExactlyOnce
import Cortos.Time.Simulation

/-!
# Whether a handle names its callback

All three drivers draw the ids of handles from a 32-bit counter that skips 0. A
client may keep a handle for as long as it likes, and a callback may be pending for
as long as it likes.

- `Book` is what the question depends on: the counter, the pending callbacks as pairs
  of id and ticket, what `cancel` would leave of them, and the record of the run.
  `Book.Step` is what a driver can do to it.
- `Book.Inv`: before the counter comes round, every id that was given names one call.
- `Book.Inv.not_identifies`: the `2 ^ 32`-th handle has the id of the first one.
- `identifies_iff`: so in a run of any driver handles name their callbacks exactly if
  fewer than `2 ^ 32` of them are given.
-/

namespace Cortos.Time

open Lib

/-! ## The book of handles -/

/-- `schedule_at` gave a handle. -/
def Event.issues : Event → Bool
  | .scheduled _ h _ => h.id ≠ 0
  | _ => false

/-- How many handles have been given. -/
def issued (log : List Event) : Nat := log.countP Event.issues

/-- The counter, the number of calls of `schedule_at`, the ids and tickets of the
pending callbacks, those that would be left after `cancel(h)`, and the record. -/
structure Book where
  nextId : Nat
  calls : Nat
  pending : List (Nat × Nat)
  left : Handle → List (Nat × Nat)
  log : List Event

/-- Pending callbacks have distinct ids, none of them 0, and `cancel` with the handle of
one call does not remove the callback of another call. -/
structure Book.Identifies (b : Book) : Prop where
  distinct : (b.pending.map Prod.fst).Nodup
  nonzero : ∀ p ∈ b.pending, p.1 ≠ 0
  own : ∀ t h tp, .scheduled t h tp ∈ b.log → ∀ p ∈ b.pending, p ∉ b.left h → p.2 = t

namespace Book

/-- `cancel` removes the id that it is asked for. -/
def Cancels (b : Book) : Prop := ∀ h, ∀ p ∈ b.pending, p ∉ b.left h → p.1 = h.id

/-- What a step of a driver does to its book. A new callback can be cancelled. -/
inductive Step (b b' : Book) : Prop where
  | issue {tp : Nat} (hnext : b'.nextId = (takeId b.nextId).2) (hcalls : b'.calls = b.calls + 1)
      (hpending : b'.pending.Perm (((takeId b.nextId).1, b.calls) :: b.pending))
      (hleft : ∃ p, p.1 = (takeId b.nextId).1 ∧
        b'.pending.Perm (p :: b'.left ⟨(takeId b.nextId).1⟩))
      (hlog : b'.log = b.log ++ [.scheduled b.calls ⟨(takeId b.nextId).1⟩ tp])
  | refuse {tp : Nat} (hnext : b'.nextId = b.nextId) (hcalls : b'.calls = b.calls + 1)
      (hpending : b'.pending = b.pending) (hlog : b'.log = b.log ++ [.scheduled b.calls {} tp])
  | other {es : List Event} (hnext : b'.nextId = b.nextId) (hcalls : b'.calls = b.calls)
      (hpending : b'.pending.Subperm b.pending) (hlog : b'.log = b.log ++ es)
      (hes : ∀ e ∈ es, ∀ t h tp, e ≠ .scheduled t h tp)

/-- What holds until the counter comes round: the ids that were given are the numbers
up to `issued`, each for one call. -/
structure Inv (b : Book) : Prop where
  few : issued b.log < 2 ^ 32
  next : b.nextId = (issued b.log + 1) % 2 ^ 32
  ticket : ∀ t h tp, .scheduled t h tp ∈ b.log → t < b.calls
  le : ∀ t h tp, .scheduled t h tp ∈ b.log → h.id ≤ issued b.log
  inj : ∀ t u h tp tp', .scheduled t h tp ∈ b.log → .scheduled u h tp' ∈ b.log → h.id ≠ 0 → t = u
  given : ∀ id, 0 < id → id ≤ issued b.log → ∃ t tp, .scheduled t ⟨id⟩ tp ∈ b.log
  pending : ∀ p ∈ b.pending, p.1 ≠ 0 ∧ ∃ tp, .scheduled p.2 ⟨p.1⟩ tp ∈ b.log
  tickets : (b.pending.map Prod.snd).Nodup

variable {b b' : Book}

theorem Inv.initial (hnext : b.nextId = 1) (hpending : b.pending = []) (hlog : b.log = []) :
    Inv b := by
  have hissued : issued b.log = 0 := by
    rw [hlog]
    rfl
  have hnone : ∀ {e}, e ∉ b.log := by
    rw [hlog]
    exact List.not_mem_nil
  constructor
  case few => omega
  case next => rw [hissued, hnext, Nat.mod_eq_of_lt (by decide)]
  case ticket | le => exact fun _ _ _ h => absurd h hnone
  case inj => exact fun _ _ _ _ _ h => absurd h hnone
  case given => omega
  case pending => simp [hpending]
  case tickets => simp [hpending]

/-- The id that is drawn next. -/
theorem Inv.takeId_fst (h : Inv b) :
    (takeId b.nextId).1 = if issued b.log + 1 < 2 ^ 32 then issued b.log + 1 else 1 := by
  have hfew := h.few
  by_cases hlt : issued b.log + 1 < 2 ^ 32
  · rw [if_pos hlt, h.next, Nat.mod_eq_of_lt hlt, takeId, if_neg (Nat.succ_ne_zero _)]
  · -- the counter is 0, which is skipped
    have hlast : issued b.log + 1 = 2 ^ 32 := by omega
    rw [if_neg hlt, h.next, hlast]
    rfl

theorem Inv.takeId_snd (h : Inv b) (hlt : issued b.log + 1 < 2 ^ 32) :
    (takeId b.nextId).2 = (issued b.log + 1 + 1) % 2 ^ 32 := by
  rw [h.next, Nat.mod_eq_of_lt hlt, takeId, if_neg (Nat.succ_ne_zero _)]

/-- Pending callbacks are named by their ids. -/
theorem Inv.identifies (h : Inv b) (hcancels : b.Cancels) : b.Identifies where
  distinct := by
    refine List.Nodup.map_on (fun p hp q hq heq => ?_) (List.Nodup.of_map _ h.tickets)
    obtain ⟨hid, tp, hs⟩ := h.pending p hp
    obtain ⟨-, tp', hs'⟩ := h.pending q hq
    rw [← heq] at hs'
    exact Prod.ext heq (h.inj _ _ _ _ _ hs hs' hid)
  nonzero p hp := (h.pending p hp).1
  own t h' tp hs p hp hleft := by
    obtain ⟨hid, tp', hs'⟩ := h.pending p hp
    have heq : (⟨p.1⟩ : Handle) = h' := congrArg Handle.mk (hcancels h' p hp hleft)
    rw [← heq] at hs
    exact h.inj _ _ _ _ _ hs' hs hid

theorem issued_issue {log : List Event} {t id tp : Nat} (hid : id ≠ 0) :
    issued (log ++ [.scheduled t ⟨id⟩ tp]) = issued log + 1 := by
  simp [issued, List.countP_append, Event.issues, hid]

/-- Events that give no handle. -/
theorem issued_other {log es : List Event}
    (hes : ∀ e ∈ es, ∀ t h tp, e = .scheduled t h tp → h.id = 0) :
    issued (log ++ es) = issued log := by
  have hzero : es.countP Event.issues = 0 := by
    refine List.countP_eq_zero.mpr fun e he => ?_
    cases e with
    | scheduled t h tp => simp [Event.issues, hes _ he t h tp rfl]
    | _ => simp [Event.issues]
  rw [issued, List.countP_append, hzero, Nat.add_zero, issued]

theorem Step.issued_le (hstep : Step b b') : issued b.log ≤ issued b'.log := by
  cases hstep with
  | issue hnext hcalls hpending hleft hlog | refuse hnext hcalls hpending hlog
  | other hnext hcalls hpending hlog =>
    rw [hlog, issued, issued, List.countP_append]
    exact Nat.le_add_right _ _

/-- Steps that give no handle keep the invariant. -/
theorem Inv.frame (h : Inv b) (hnext : b'.nextId = b.nextId) (hcalls : b.calls ≤ b'.calls)
    (hpending : b'.pending.Subperm b.pending) {es : List Event} (hlog : b'.log = b.log ++ es)
    (hes : ∀ e ∈ es, ∀ t h tp, e = .scheduled t h tp → t < b'.calls ∧ h.id = 0) : Inv b' := by
  have hissued : issued b'.log = issued b.log := by
    rw [hlog]
    exact issued_other fun e he t h tp heq => (hes e he t h tp heq).2
  have hmem : ∀ {t h' tp}, .scheduled t h' tp ∈ b'.log →
      .scheduled t h' tp ∈ b.log ∨ t < b'.calls ∧ h'.id = 0 := by
    intro t h' tp ht
    rw [hlog] at ht
    rcases List.mem_append.mp ht with ht | ht
    · exact .inl ht
    · exact .inr (hes _ ht t h' tp rfl)
  have hkeep : ∀ {e}, e ∈ b.log → e ∈ b'.log := fun he => hlog ▸ List.mem_append_left _ he
  constructor
  case few => exact hissued ▸ h.few
  case next => rw [hnext, hissued, h.next]
  case ticket =>
    intro t h' tp ht
    rcases hmem ht with ht | ht
    · exact Nat.lt_of_lt_of_le (h.ticket t h' tp ht) hcalls
    · exact ht.1
  case le =>
    intro t h' tp ht
    rcases hmem ht with ht | ht
    · exact hissued ▸ h.le t h' tp ht
    · rw [ht.2]
      exact Nat.zero_le _
  case inj =>
    intro t u h' tp tp' ht hu hid
    rcases hmem ht with ht | ht
    · rcases hmem hu with hu | hu
      · exact h.inj t u h' tp tp' ht hu hid
      · exact absurd hu.2 hid
    · exact absurd ht.2 hid
  case given =>
    intro id hpos hle
    obtain ⟨t, tp, ht⟩ := h.given id hpos (hissued ▸ hle)
    exact ⟨t, tp, hkeep ht⟩
  case pending =>
    intro p hp
    obtain ⟨hid, tp, ht⟩ := h.pending p (hpending.subset hp)
    exact ⟨hid, tp, hkeep ht⟩
  case tickets =>
    obtain ⟨l, hperm, hsub⟩ := hpending
    exact (hperm.map Prod.snd).nodup_iff.mp ((hsub.map Prod.snd).nodup h.tickets)

/-- **One step**, as long as the counter does not come round. -/
theorem Inv.step (h : Inv b) (hstep : Step b b') (hfew : issued b'.log < 2 ^ 32) : Inv b' := by
  cases hstep with
  | refuse hnext hcalls hpending hlog =>
    refine h.frame hnext (by omega) (hpending ▸ List.Subperm.refl _) hlog fun e he t h' tp heq => ?_
    rw [List.mem_singleton.mp he] at heq
    cases heq
    exact ⟨by omega, rfl⟩
  | other hnext hcalls hpending hlog hes =>
    exact h.frame hnext hcalls.ge hpending hlog fun e he t h' tp heq =>
      absurd heq (hes e he t h' tp)
  | @issue tp hnext hcalls hpending hleft hlog =>
    have hissued : issued b'.log = issued b.log + 1 := by
      rw [hlog, issued_issue (takeId_ne_zero _)]
    rw [hissued] at hfew
    have hid : (takeId b.nextId).1 = issued b.log + 1 := by
      rw [h.takeId_fst, if_pos hfew]
    rw [hid] at hlog hpending
    have hmem : ∀ {t h' tp'}, .scheduled t h' tp' ∈ b'.log →
        .scheduled t h' tp' ∈ b.log ∨ t = b.calls ∧ h'.id = issued b.log + 1 := by
      intro t h' tp' ht
      rw [hlog] at ht
      rcases List.mem_append.mp ht with ht | ht
      · exact .inl ht
      · cases List.mem_singleton.mp ht
        exact .inr ⟨rfl, rfl⟩
    have hkeep : ∀ {e}, e ∈ b.log → e ∈ b'.log := fun he => hlog ▸ List.mem_append_left _ he
    have hnew : Event.scheduled b.calls ⟨issued b.log + 1⟩ tp ∈ b'.log := by
      rw [hlog]
      exact List.mem_append_right _ List.mem_cons_self
    constructor
    case few => omega
    case next => rw [hnext, h.takeId_snd hfew, hissued]
    case ticket =>
      intro t h' tp' ht
      rcases hmem ht with ht | ⟨rfl, -⟩
      · have := h.ticket t h' tp' ht
        omega
      · omega
    case le =>
      intro t h' tp' ht
      rcases hmem ht with ht | ⟨-, heq⟩
      · have := h.le t h' tp' ht
        omega
      · omega
    case inj =>
      intro t u h' tp₁ tp₂ ht hu hne
      rcases hmem ht with ht | ⟨rfl, heq⟩ <;> rcases hmem hu with hu | ⟨rfl, heq'⟩
      · exact h.inj t u h' tp₁ tp₂ ht hu hne
      · have := h.le t h' tp₁ ht
        omega
      · have := h.le u h' tp₂ hu
        omega
      · rfl
    case given =>
      intro id hpos hle
      rw [hissued] at hle
      rcases Nat.lt_or_eq_of_le hle with hlt | rfl
      · obtain ⟨t, tp', ht⟩ := h.given id hpos (Nat.le_of_lt_succ hlt)
        exact ⟨t, tp', hkeep ht⟩
      · exact ⟨b.calls, tp, hnew⟩
    case pending =>
      intro p hp
      rcases List.mem_cons.mp (hpending.mem_iff.mp hp) with rfl | hp
      · exact ⟨Nat.succ_ne_zero _, tp, hnew⟩
      · obtain ⟨hid, tp', ht⟩ := h.pending p hp
        exact ⟨hid, tp', hkeep ht⟩
    case tickets =>
      rw [(hpending.map Prod.snd).nodup_iff, List.map_cons, List.nodup_cons]
      refine ⟨fun hold => ?_, h.tickets⟩
      -- the tickets of pending callbacks were given earlier
      obtain ⟨p, hp, heq⟩ := List.mem_map.mp hold
      obtain ⟨-, tp', ht⟩ := h.pending p hp
      have := h.ticket _ _ _ ht
      rw [heq] at this
      exact absurd this (Nat.lt_irrefl _)

/-- **The step with which the counter comes round** gives the first handle again. -/
theorem Inv.not_identifies (h : Inv b) (hstep : Step b b') (hfull : 2 ^ 32 ≤ issued b'.log) :
    ¬ b'.Identifies := by
  have hfew := h.few
  cases hstep with
  | refuse hnext hcalls hpending hlog =>
    rw [hlog, issued_other fun e he t h tp heq => ?_] at hfull
    · omega
    · rw [List.mem_singleton.mp he] at heq
      cases heq
      rfl
  | other hnext hcalls hpending hlog hes =>
    rw [hlog, issued_other fun e he t h tp heq => absurd heq (hes e he t h tp)] at hfull
    omega
  | @issue tp hnext hcalls hpending hleft hlog =>
    have hissued : issued b'.log = issued b.log + 1 := by
      rw [hlog, issued_issue (takeId_ne_zero _)]
    have hid : (takeId b.nextId).1 = 1 := by
      rw [h.takeId_fst, if_neg (by omega)]
    rw [hid] at hlog hpending hleft
    obtain ⟨t, tp', hfirst⟩ := h.given 1 Nat.one_pos (by omega)
    obtain ⟨p, hp, hperm⟩ := hleft
    intro hident
    -- `cancel` finds a callback with id 1, and there is only the new one
    have hmem : p ∈ b'.pending := hperm.mem_iff.mpr List.mem_cons_self
    have hnew : (1, b.calls) ∈ b'.pending := hpending.mem_iff.mpr List.mem_cons_self
    obtain rfl : p = (1, b.calls) := List.inj_on_of_nodup_map hident.distinct hmem hnew hp
    have hgone : (1, b.calls) ∉ b'.left ⟨1⟩ :=
      (List.nodup_cons.mp (hperm.nodup_iff.mp (List.Nodup.of_map _ hident.distinct))).1
    have hown := hident.own t ⟨1⟩ tp' (hlog ▸ List.mem_append_left _ hfirst) _ hmem hgone
    have hearlier := h.ticket t _ _ hfirst
    simp only at hown
    omega

end Book

/-- **Handles name their callbacks** along a run of a driver, if and only if fewer than
`2 ^ 32` handles are given in it. `I` is an invariant of the driver. -/
theorem Book.identifies_iff {σ : Type} {M : Lts σ Label DriverFault} (book : σ → Book)
    (I : σ → Prop) (hinit : ∀ s, M.init s →
      I s ∧ (book s).nextId = 1 ∧ (book s).pending = [] ∧ (book s).log = [])
    (hstep : ∀ s l s', I s → M.step s l = .ok s' → I s' ∧ (book s).Step (book s'))
    (hcancels : ∀ s, I s → (book s).Cancels) {n : Nat} (r : M.Run n) :
    (∀ i ≤ n, (book (r.state i)).Identifies) ↔ issued (book (r.state n)).log < 2 ^ 32 := by
  obtain ⟨hI, hid, hpending, hlog⟩ := hinit _ r.start
  have hreach : ∀ i ≤ n, I (r.state i) := by
    intro i
    induction i with
    | zero => exact fun _ => hI
    | succ i ih => exact fun hi => (hstep _ _ _ (ih (Nat.le_of_lt hi)) (r.next i hi)).1
  have hnext : ∀ i < n, (book (r.state i)).Step (book (r.state (i + 1))) := fun i hi =>
    (hstep _ _ _ (hreach i (Nat.le_of_lt hi)) (r.next i hi)).2
  -- the invariant of the book holds up to the state at which the counter comes round
  have hinv : ∀ i ≤ n, issued (book (r.state i)).log < 2 ^ 32 → (book (r.state i)).Inv := by
    intro i
    induction i with
    | zero => exact fun _ _ => .initial hid hpending hlog
    | succ i ih =>
      intro hi hfew
      have hstep := hnext i hi
      exact (ih (Nat.le_of_lt hi) (Nat.lt_of_le_of_lt hstep.issued_le hfew)).step hstep hfew
  constructor
  · intro hident
    by_contra hmany
    -- the first state with too many handles
    have hex : ∃ i, i ≤ n ∧ 2 ^ 32 ≤ issued (book (r.state i)).log := ⟨n, le_rfl, by omega⟩
    obtain ⟨hj, hfull⟩ := Nat.find_spec hex
    cases hfind : Nat.find hex with
    | zero =>
      rw [hfind, hlog] at hfull
      exact absurd hfull (by decide)
    | succ i =>
      rw [hfind] at hj hfull
      have hbefore : issued (book (r.state i)).log < 2 ^ 32 := by
        have hmin := Nat.find_min hex (m := i) (by omega)
        by_contra hge
        exact hmin ⟨by omega, by omega⟩
      exact (hinv i (by omega) hbefore).not_identifies (hnext i hj) hfull (hident (i + 1) hj)
  · intro hfew i hi
    refine (hinv i hi ?_).identifies (hcancels _ (hreach i hi))
    refine Nat.lt_of_le_of_lt ?_ hfew
    -- the number of handles only grows
    have hgrows : ∀ j, i ≤ j → j ≤ n →
        issued (book (r.state i)).log ≤ issued (book (r.state j)).log := by
      intro j hij
      induction j, hij using Nat.le_induction with
      | base => exact fun _ => le_rfl
      | succ j _ ih => exact fun hj => (ih (Nat.le_of_lt hj)).trans (hnext j hj).issued_le
    exact hgrows n hi le_rfl

/-! ## The books of the slot drivers -/

section Slots

variable {kind : Kind} {s s' : Driver} {ds : DriverState} {l : Label}

/-- The ids and tickets of the slots that hold a callback. -/
def DriverState.callbacks (ds : DriverState) : List (Nat × Nat) :=
  ((List.finRange maxScheduledCallbacks).filter fun i => (ds.slots i).cb ≠ none).map
    fun i => ((ds.slots i).id, (ds.slots i).ticket)

def Driver.book (kind : Kind) (s : Driver) : Book where
  nextId := s.ds.nextId
  calls := s.calls
  pending := s.ds.callbacks
  left h := (s.cancel kind h).ds.callbacks
  log := s.log

namespace DriverState

theorem Paired.callbacks_eq (h : ds.Paired) :
    ds.callbacks = ds.filled.map fun slot => (slot.id, slot.ticket) := by
  rw [callbacks, filled, List.map_map]
  refine congrArg _ (List.filter_congr fun i _ => ?_)
  simp only [ne_eq, h i]

theorem Paired.callbacks_fill (h : ds.Paired) {i : Fin maxScheduledCallbacks} {ticket tp arg : Nat}
    {cb : Callback} (hfree : (ds.slots i).id = 0) :
    (ds.fill i ticket tp cb arg).callbacks.Perm (((takeId ds.nextId).1, ticket) :: ds.callbacks) := by
  rw [(h.fill i ticket tp cb arg).callbacks_eq, h.callbacks_eq]
  have hfree' : (({ ds with nextId := (takeId ds.nextId).2 } : DriverState).slots i).id = 0 := hfree
  exact (filled_setSlot hfree' (takeId_ne_zero _)).map _

theorem Paired.callbacks_free (h : ds.Paired) {i : Fin maxScheduledCallbacks}
    (hid : (ds.slots i).id ≠ 0) :
    ds.callbacks.Perm (((ds.slots i).id, (ds.slots i).ticket) :: (ds.setSlot i {}).callbacks) := by
  rw [(h.free i).callbacks_eq, h.callbacks_eq]
  exact (filled_free hid).map _

/-- `cancel` frees a slot with the id, if there is one. -/
theorem cancel_cases (ds : DriverState) (kind : Kind) (port : Port) (h : Handle) :
    (ds.cancel kind port h).2.1 = ds ∧ (h.id = 0 ∨ ∀ i, (ds.slots i).id ≠ h.id) ∨
      h.id ≠ 0 ∧ ∃ i, (ds.slots i).id = h.id ∧ (ds.cancel kind port h).2.1 = ds.setSlot i {} := by
  by_cases hid : h.id = 0
  · simp [cancel, hid]
  · cases hfind : ds.find h with
    | none => exact .inl ⟨by simp [cancel, hid, hfind], .inr (find_none hfind)⟩
    | some i => exact .inr ⟨hid, i, find_some hfind, by simp [cancel, hid, hfind]⟩

end DriverState

theorem Driver.cancels (h : s.ds.Paired) : (s.book kind).Cancels := by
  intro h' p hp hleft
  rcases s.ds.cancel_cases kind s.port h' with ⟨heq, -⟩ | ⟨hid, i, hi, heq⟩
  · refine absurd ?_ hleft
    show p ∈ (s.ds.cancel kind s.port h').2.1.callbacks
    rwa [heq]
  · have hperm := h.callbacks_free (hi ▸ hid)
    rcases List.mem_cons.mp (hperm.mem_iff.mp hp) with rfl | hmem
    · exact hi
    · refine absurd ?_ hleft
      show p ∈ (s.ds.cancel kind s.port h').2.1.callbacks
      rwa [heq]

/-- A move that leaves the counter alone and at most frees a slot. -/
theorem Driver.book_frame (h : s.ds.Paired) (hnext : s'.ds.nextId = s.ds.nextId)
    (hcalls : s'.calls = s.calls) (hslots : s'.ds.slots = s.ds.slots ∨
      ∃ i, (s.ds.slots i).id ≠ 0 ∧ s'.ds.slots = (s.ds.setSlot i {}).slots)
    {es : List Event} (hlog : s'.log = s.log ++ es)
    (hes : ∀ e ∈ es, ∀ t h tp, e ≠ .scheduled t h tp) :
    s'.ds.Paired ∧ (s.book kind).Step (s'.book kind) := by
  rcases hslots with heq | ⟨i, hi, heq⟩
  · have hpending : s'.ds.callbacks = s.ds.callbacks := by
      rw [DriverState.callbacks, heq, DriverState.callbacks]
    have hsub : s'.ds.callbacks.Subperm s.ds.callbacks := hpending ▸ .refl _
    refine ⟨?_, .other hnext hcalls hsub hlog hes⟩
    rw [DriverState.Paired, heq]
    exact h
  · have hpending : s'.ds.callbacks = (s.ds.setSlot i {}).callbacks := by
      rw [DriverState.callbacks, heq, DriverState.callbacks]
    have hsub : s'.ds.callbacks.Subperm s.ds.callbacks := by
      refine List.Subperm.trans ?_ (h.callbacks_free hi).symm.subperm
      exact hpending ▸ (List.sublist_cons_self _ _).subperm
    refine ⟨?_, .other hnext hcalls hsub hlog hes⟩
    rw [DriverState.Paired, heq]
    exact h.free i

/-- A step of a slot driver, in its book. -/
theorem Driver.book_step (h : s.ds.Paired) (hstep : s.step kind l = .ok s') :
    s'.ds.Paired ∧ (s.book kind).Step (s'.book kind) := by
  cases Driver.step_move hstep with
  | refuse hcall hwhy => exact ⟨h, .refuse rfl rfl rfl rfl⟩
  | @schedule i tp arg cb hcall htp hfree =>
    have hpaired := h.fill i s.calls tp cb arg
    refine ⟨hpaired, .issue rfl rfl (h.callbacks_fill hfree) ?_ rfl⟩
    -- the new slot has the id, so `cancel` frees a slot
    have hnew : ((s.ds.fill i s.calls tp cb arg).slots i).id = (takeId s.ds.nextId).1 := by
      rw [DriverState.fill, DriverState.setSlot_self]
    rcases (s.ds.fill i s.calls tp cb arg).cancel_cases kind
      ((s.ds.fill i s.calls tp cb arg).rearm kind s.port) ⟨(takeId s.ds.nextId).1⟩ with
      ⟨-, hzero | hnone⟩ | ⟨hid, j, hj, heq⟩
    · exact absurd hzero (takeId_ne_zero _)
    · exact absurd hnew (hnone i)
    · have hperm := hpaired.callbacks_free (hj ▸ hid)
      rw [← heq] at hperm
      exact ⟨_, hj, hperm⟩
  | @cancel i h' hcall hid hi =>
    refine Driver.book_frame h rfl rfl (.inr ⟨i, ?_, rfl⟩) rfl (by simp)
    rwa [DriverState.find_some hi]
  | cancelNone | enter | leave => exact Driver.book_frame h rfl rfl (.inl rfl) rfl (by simp)
  | @fire now since i cb hisr hid hdue hcb =>
    exact Driver.book_frame h rfl rfl (.inr ⟨i, hid, rfl⟩) rfl (by simp)
  | skip | callbackReturns | advance | start | stay =>
    exact Driver.book_frame h rfl rfl (.inl rfl) (List.append_nil _).symm (by simp)
  | stop hcall hstarted =>
    have hlog : (s.stop kind).log = s.log ++ [] := by simp [Driver.stop, hstarted]
    refine Driver.book_frame h ?_ ?_ (.inl ?_) hlog (by simp) <;> simp [Driver.stop, hstarted]

end Slots

/-! ## The book of the simulation driver -/

section Simulation

variable {s s' : Sim} {l : Label}

def SimEvent.entry (e : SimEvent) : Nat × Nat := (e.id, e.ticket)

def Sim.book (s : Sim) : Book where
  nextId := s.ds.nextId
  calls := s.calls
  pending := s.live.map SimEvent.entry
  left h := (s.cancel h).live.map SimEvent.entry
  log := s.log

/-- `cancel` marks an event with the id, if there is one in the vector. -/
theorem Sim.cancel_cases (s : Sim) (h : Handle) :
    (s.cancel h).live = s.live ∧ (h.id = 0 ∨ ∀ e ∈ active s.ds.events, e.id ≠ h.id) ∨
      ∃ e, e.id = h.id ∧ s.live.Perm (e :: (s.cancel h).live) := by
  by_cases hid : h.id = 0
  · refine .inl ⟨?_, .inl hid⟩
    simp only [Sim.cancel, SimState.cancel, if_pos hid, Sim.live]
  · cases hfound : (SimState.cancelFirst h.id s.ds.events).1 with
    | false =>
      obtain ⟨heq, hnone⟩ := cancelFirst_false hfound
      refine .inl ⟨?_, .inr hnone⟩
      simp only [Sim.cancel, SimState.cancel, if_neg hid, Sim.live, heq]
    | true =>
      obtain ⟨e, he, hperm⟩ := cancelFirst_true hfound
      refine .inr ⟨e, he, ?_⟩
      simp only [Sim.cancel, SimState.cancel, if_neg hid, Sim.live]
      exact hperm.append_right s.isr.due

theorem Sim.cancels (s : Sim) : s.book.Cancels := by
  intro h p hp hleft
  rcases s.cancel_cases h with ⟨heq, -⟩ | ⟨e, he, hperm⟩
  · refine absurd ?_ hleft
    show p ∈ (s.cancel h).live.map SimEvent.entry
    rwa [heq]
  · rcases List.mem_cons.mp ((hperm.map SimEvent.entry).mem_iff.mp hp) with rfl | hmem
    · exact he
    · exact absurd hmem hleft

/-- A step that leaves the counter alone and adds no event. -/
theorem Sim.book_frame (hnext : s'.ds.nextId = s.ds.nextId) (hcalls : s'.calls = s.calls)
    (hlive : s'.live.Subperm s.live) {es : List Event} (hlog : s'.log = s.log ++ es)
    (hes : ∀ e ∈ es, ∀ t h tp, e ≠ .scheduled t h tp) : s.book.Step s'.book := by
  refine .other hnext hcalls ?_ hlog hes
  obtain ⟨l, hperm, hsub⟩ := hlive
  exact ⟨l.map SimEvent.entry, hperm.map _, hsub.map _⟩

/-- `schedule_at` of a callback. -/
theorem Sim.book_schedule (s : Sim) (tp : Nat) (cb : Callback) (arg : Nat) :
    s.book.Step (s.scheduleAt tp (some cb) arg).book := by
  have hlive : (s.scheduleAt tp (some cb) arg).live.Perm
      (⟨(takeId s.ds.nextId).1, tp, some cb, arg, false, s.calls⟩ :: s.live) := by
    simp only [Sim.live, Sim.scheduleAt, SimState.scheduleAt, active, List.filter_append]
    exact (List.append_assoc ..).symm ▸ List.perm_middle
  refine .issue rfl rfl (hlive.map SimEvent.entry) ?_ rfl
  -- the new event is in the vector, so `cancel` marks an event
  have hnew : (⟨(takeId s.ds.nextId).1, tp, some cb, arg, false, s.calls⟩ : SimEvent) ∈
      active (s.scheduleAt tp (some cb) arg).ds.events := by
    simp [Sim.scheduleAt, SimState.scheduleAt, active]
  rcases (s.scheduleAt tp (some cb) arg).cancel_cases ⟨(takeId s.ds.nextId).1⟩ with
    ⟨-, hzero | hnone⟩ | ⟨e, he, hperm⟩
  · exact absurd hzero (takeId_ne_zero _)
  · exact absurd rfl (hnone _ hnew)
  · exact ⟨e.entry, he, hperm.map SimEvent.entry⟩

/-- A copy is taken from the list. -/
theorem Sim.live_drop {now : Nat} {e : SimEvent} {due : List SimEvent}
    (hisr : s.isr = .firing now (e :: due)) :
    (active s.ds.events ++ due).Subperm s.live := by
  rw [Sim.live, hisr]
  exact ((List.sublist_cons_self e due).append_left _).subperm

/-- A step of the simulation driver, in its book. -/
theorem Sim.book_step (hstep : s.step l = .ok s') : s.book.Step s'.book := by
  cases Sim.step_move hstep with
  | refuse => exact .refuse rfl rfl rfl rfl
  | @schedule tp arg cb => exact s.book_schedule tp cb arg
  | @cancel h =>
    have hlive : (s.cancel h).live.Subperm s.live := by
      rcases s.cancel_cases h with ⟨heq, -⟩ | ⟨e, -, hperm⟩
      · rw [heq]
      · exact (List.sublist_cons_self _ _).subperm.trans hperm.symm.subperm
    have hnext : (s.cancel h).ds.nextId = s.ds.nextId := by
      simp only [Sim.cancel, SimState.cancel]
      split <;> rfl
    exact Sim.book_frame hnext rfl hlive rfl (by simp)
  | enter hidle =>
    refine Sim.book_frame rfl rfl ?_ rfl (by simp)
    rw [Sim.live_idle hidle]
    exact (active_enter s.ds.events s.ds.virtualNow).symm.subperm
  | skip hisr hcb =>
    exact Sim.book_frame rfl rfl (Sim.live_drop hisr) (List.append_nil _).symm (by simp)
  | fire hisr hcb => exact Sim.book_frame rfl rfl (Sim.live_drop hisr) rfl (by simp)
  | leave hisr =>
    refine Sim.book_frame rfl rfl ?_ rfl (by simp)
    rw [Sim.live, Sim.live, hisr]
    exact .refl _
  | callbackReturns hisr =>
    refine Sim.book_frame rfl rfl ?_ (List.append_nil _).symm (by simp)
    rw [Sim.live, Sim.live, hisr]
    exact .refl _
  | advance | start | stop =>
    exact Sim.book_frame rfl rfl (.refl _) (List.append_nil _).symm (by simp)

end Simulation

/-! ## Runs of any length -/

/-- **A handle names its callback, unless the counter has come round.** In a run of any
length of each of the three drivers, all pending callbacks have distinct ids other than
0 and `cancel` never removes the callback of another call, if and only if fewer than
`2 ^ 32` handles are given. -/
theorem handles_identify_iff (kind : Kind) (frequencyHz n : Nat)
    (r : (slotSystem kind frequencyHz).Run n) (rs : (simSystem frequencyHz).Run n) :
    ((∀ i ≤ n, ((r.state i).book kind).Identifies) ↔ issued (r.state n).log < 2 ^ 32) ∧
      ((∀ i ≤ n, (rs.state i).book.Identifies) ↔ issued (rs.state n).log < 2 ^ 32) := by
  constructor
  · refine Book.identifies_iff (Driver.book kind) (fun s => s.ds.Paired) ?_
      (fun s l s' h hstep => Driver.book_step h hstep) (fun s h => Driver.cancels h) r
    rintro s ⟨now, -, rfl⟩
    exact ⟨fun i => iff_of_true rfl rfl, rfl, rfl, rfl⟩
  · refine Book.identifies_iff Sim.book (fun _ => True) ?_
      (fun s l s' _ hstep => ⟨trivial, Sim.book_step hstep⟩) (fun s _ => s.cancels) rs
    rintro s rfl
    exact ⟨trivial, rfl, rfl, rfl⟩

/-! ## When the counter comes round -/

/-- A deadline that is not reached. -/
private def farSlot : Slot := ⟨1, u64Max, some 0, 0, 0⟩

/-- The first callback is waiting in slot 0, the other slots are free, and `k` more
callbacks have been scheduled and cancelled. -/
private structure Driver.Waits (s : Driver) (k : Nat) : Prop where
  idle : s.isr = .idle
  slots : s.ds.slots = Function.update (fun _ => {}) 0 farSlot
  next : s.ds.nextId = (k + 2) % 2 ^ 32
  calls : s.calls = k + 1

private theorem takeId_round {k : Nat} (hk : k + 2 < 2 ^ 32) :
    takeId ((k + 2) % 2 ^ 32) = (k + 2, (k + 1 + 2) % 2 ^ 32) := by
  rw [Nat.mod_eq_of_lt hk, takeId, if_neg (Nat.succ_ne_zero _)]

/-- One more callback is scheduled, in slot 1, and cancelled. -/
private theorem Driver.Waits.round {s : Driver} {k : Nat} (kind : Kind) (h : s.Waits k)
    (hk : k + 2 < 2 ^ 32) :
    ((s.scheduleAt kind 0 (some 0) 0).cancel kind ⟨k + 2⟩).Waits (k + 1) := by
  have hfree : s.ds.firstSlot (fun slot => slot.id = 0) = some 1 := by
    rw [DriverState.firstSlot, h.slots]
    rfl
  have htake : takeId s.ds.nextId = (k + 2, (k + 1 + 2) % 2 ^ 32) := h.next ▸ takeId_round hk
  have hfind : (s.ds.fill 1 s.calls 0 0 0).find ⟨k + 2⟩ = some 1 := by
    have hcells : List.finRange maxScheduledCallbacks = 0 :: 1 :: (List.finRange 16).drop 2 := rfl
    rw [DriverState.find, DriverState.firstSlot, hcells, List.find?_cons_of_neg,
      List.find?_cons_of_pos]
    · simp [DriverState.fill, htake]
    · rw [DriverState.fill, DriverState.setSlot_of_ne (by decide)]
      simp [h.slots, farSlot]
  simp only [Driver.cancel, Driver.scheduleAt, DriverState.scheduleAt, hfree, DriverState.cancel,
    if_neg (Nat.succ_ne_zero _), hfind]
  refine ⟨h.idle, ?_, congrArg Prod.snd htake, congrArg (· + 1) h.calls⟩
  -- slot 1 is free again
  show Function.update (Function.update s.ds.slots 1 _) 1 {} = _
  rw [Function.update_idem, h.slots]
  exact Function.update_eq_self (1 : Fin maxScheduledCallbacks)
    (Function.update (fun _ => ({} : Slot)) 0 farSlot)

private theorem Driver.waits_reachable (kind : Kind) {k : Nat} (hk : k + 2 ≤ 2 ^ 32) :
    ∃ s, (slotSystem kind 1000).ReachVia (fun _ _ => True) s ∧ s.Waits k := by
  induction k with
  | zero =>
    refine ⟨(Driver.initial kind 1000 0).scheduleAt kind u64Max (some 0) 0, ?_, ?_⟩
    · exact .step (.init ⟨0, Nat.zero_le _, rfl⟩) (l := .scheduleAt u64Max (some 0) 0) trivial rfl
    · exact ⟨rfl, rfl, rfl, rfl⟩
  | succ k ih =>
    obtain ⟨s, hreach, h⟩ := ih (Nat.le_of_lt hk)
    have hcall : s.isr.mayCall = true := by rw [h.idle]; rfl
    refine ⟨_, ?_, h.round kind hk⟩
    have hscheduled := hreach.step (l := Label.scheduleAt 0 (some 0) 0) trivial
      (Driver.step_scheduleAt hcall (Nat.zero_le u64Max))
    exact hscheduled.step (l := .cancel ⟨k + 2⟩) trivial (Driver.step_cancel hcall)

/-- The first callback is waiting in the vector of the simulation driver, and `k` more
callbacks have been scheduled and cancelled. -/
private structure Sim.Waits (s : Sim) (k : Nat) : Prop where
  idle : s.isr = .idle
  events : ∃ es, s.ds.events = ⟨1, u64Max, some 0, 0, false, 0⟩ :: es ∧
    ∀ e ∈ es, e.cancelled = true
  next : s.ds.nextId = (k + 2) % 2 ^ 32
  calls : s.calls = k + 1

/-- `cancel` passes over events that are cancelled. -/
private theorem cancelFirst_append {id : Nat} {es es' : List SimEvent}
    (h : ∀ e ∈ es, e.cancelled = true) :
    (SimState.cancelFirst id (es ++ es')).2 = es ++ (SimState.cancelFirst id es').2 := by
  induction es with
  | nil => rfl
  | cons e es ih =>
    have he := h e List.mem_cons_self
    rw [List.cons_append, SimState.cancelFirst, if_neg (by simp [he])]
    rw [ih fun x hx => h x (List.mem_cons_of_mem _ hx), List.cons_append]

private theorem active_cancelled {es : List SimEvent} (h : ∀ e ∈ es, e.cancelled = true) :
    active es = [] := by
  refine List.filter_eq_nil_iff.mpr fun e he => ?_
  simp [h e he]

private theorem Sim.Waits.round {s : Sim} {k : Nat} (h : s.Waits k) (hk : k + 2 < 2 ^ 32) :
    ((s.scheduleAt 0 (some 0) 0).cancel ⟨k + 2⟩).Waits (k + 1) := by
  obtain ⟨es, hevents, hes⟩ := h.events
  have htake : takeId s.ds.nextId = (k + 2, (k + 1 + 2) % 2 ^ 32) := h.next ▸ takeId_round hk
  simp only [Sim.cancel, Sim.scheduleAt, SimState.scheduleAt, SimState.cancel,
    if_neg (Nat.succ_ne_zero _), htake, hevents]
  refine ⟨h.idle, ⟨es ++ [⟨k + 2, 0, some 0, 0, true, s.calls⟩], ?_, ?_⟩, rfl,
    congrArg (· + 1) h.calls⟩
  · show (SimState.cancelFirst (k + 2) (_ :: (es ++ _))).2 = _
    rw [SimState.cancelFirst, if_neg (by simp), cancelFirst_append hes]
    simp [SimState.cancelFirst]
  · intro e he
    rcases List.mem_append.mp he with he | he
    · exact hes e he
    · rw [List.mem_singleton.mp he]

private theorem Sim.waits_reachable {k : Nat} (hk : k + 2 ≤ 2 ^ 32) :
    ∃ s, (simSystem 1000).ReachVia (fun _ _ => True) s ∧ s.Waits k := by
  induction k with
  | zero =>
    refine ⟨(Sim.initial 1000).scheduleAt u64Max (some 0) 0, ?_, ?_⟩
    · exact .step (.init rfl) (l := .scheduleAt u64Max (some 0) 0) trivial rfl
    · exact ⟨rfl, ⟨[], rfl, by simp⟩, rfl, rfl⟩
  | succ k ih =>
    obtain ⟨s, hreach, h⟩ := ih (Nat.le_of_lt hk)
    have hscheduled := hreach.step (l := Label.scheduleAt 0 (some 0) 0) trivial
      (Sim.step_scheduleAt (Nat.zero_le u64Max))
    exact ⟨_, hscheduled.step (l := .cancel ⟨k + 2⟩) trivial rfl, h.round hk⟩

/-- The first callback waits while `2 ^ 32 - 2` others are scheduled and cancelled. The
next one gets the id of the first, and `cancel` with its handle removes the first. -/
theorem first_id_again :
    (∀ kind, ∃ s, (slotSystem kind 1000).ReachVia (fun _ _ => True) s ∧
      (s.book kind).pending = [(1, 0), (1, 2 ^ 32 - 1)] ∧
      .scheduled (2 ^ 32 - 1) ⟨1⟩ 0 ∈ s.log ∧ (s.book kind).left ⟨1⟩ = [(1, 2 ^ 32 - 1)]) ∧
    ∃ s, (simSystem 1000).ReachVia (fun _ _ => True) s ∧
      s.book.pending = [(1, 0), (1, 2 ^ 32 - 1)] ∧
      .scheduled (2 ^ 32 - 1) ⟨1⟩ 0 ∈ s.log ∧ s.book.left ⟨1⟩ = [(1, 2 ^ 32 - 1)] := by
  constructor
  · intro kind
    obtain ⟨s, hreach, h⟩ := Driver.waits_reachable kind (k := 2 ^ 32 - 2) (by decide)
    have hcall : s.isr.mayCall = true := by rw [h.idle]; rfl
    have hfree : s.ds.firstSlot (fun slot => slot.id = 0) = some 1 := by
      rw [DriverState.firstSlot, h.slots]
      rfl
    have htake : takeId s.ds.nextId = (1, 2) := h.next ▸ rfl
    have hds : (s.ds.fill 1 s.calls 0 0 0).slots = Function.update
        (Function.update (fun _ => {}) 0 farSlot) 1 ⟨1, 0, some 0, 0, 2 ^ 32 - 1⟩ := by
      rw [DriverState.fill, htake, h.calls, ← h.slots]
      rfl
    have hfind : (s.ds.fill 1 s.calls 0 0 0).find ⟨1⟩ = some 0 := by
      rw [DriverState.find, DriverState.firstSlot, hds]
      rfl
    refine ⟨_, hreach.step (l := Label.scheduleAt 0 (some 0) 0) trivial
      (Driver.step_scheduleAt hcall (Nat.zero_le u64Max)), ?_, ?_, ?_⟩
    · simp only [Driver.book, Driver.scheduleAt, DriverState.scheduleAt, hfree,
        DriverState.callbacks, hds]
      rfl
    · simp [Driver.scheduleAt, DriverState.scheduleAt, hfree, htake, h.calls]
    · simp only [Driver.book, Driver.scheduleAt, DriverState.scheduleAt, hfree, Driver.cancel,
        DriverState.cancel, hfind, DriverState.callbacks, DriverState.setSlot, hds]
      rfl
  · obtain ⟨s, hreach, h⟩ := Sim.waits_reachable (k := 2 ^ 32 - 2) (by decide)
    obtain ⟨es, hevents, hes⟩ := h.events
    have htake : takeId s.ds.nextId = (1, 2) := h.next ▸ rfl
    have hnone : (es.filter fun e => !e.cancelled) = [] := active_cancelled hes
    refine ⟨_, hreach.step (l := Label.scheduleAt 0 (some 0) 0) trivial
      (Sim.step_scheduleAt (Nat.zero_le u64Max)), ?_, ?_, ?_⟩
    · simp [Sim.book, Sim.live, Sim.scheduleAt, SimState.scheduleAt, hevents, htake, active,
        hnone, h.idle, h.calls, SimIsr.due, SimEvent.entry]
    · simp [Sim.scheduleAt, SimState.scheduleAt, htake, h.calls]
    · simp [Sim.book, Sim.live, Sim.cancel, SimState.cancel, SimState.cancelFirst, Sim.scheduleAt,
        SimState.scheduleAt, hevents, htake, active, hnone, h.idle, h.calls, SimIsr.due,
        SimEvent.entry]

end Cortos.Time
